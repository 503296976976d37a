import InfernoFpga.Mdns.Budget

/-!
# Oversize — queries that a response has no room for

Once the ten names of the cache are taken, a record takes a fixed number of bytes, whatever the
message holds already.  A device name of many labels fills the cache with itself, and then each
combination of wants that exceeds the budget does exceed a payload.
-/

namespace InfernoFpga
namespace Mdns

open Lib
open Firmware

/-! ## A full cache -/

/-- With the names `nc` in the cache, `f` adds none and appends `k` bytes. -/
def Adds (nc : List (Str × Nat)) (k : Nat) (f : Enc → Enc) : Prop :=
  ∀ e : Enc, e.nc = nc → (f e).nc = nc ∧ (f e).buf.length = e.buf.length + k

namespace Adds

variable {nc : List (Str × Nat)} {k j : Nat} {f g : Enc → Enc}

theorem put (bs : List UInt8) : Adds nc bs.length fun e => e.put bs :=
  fun _ he => ⟨he, List.length_append⟩

theorem comp (hf : Adds nc k f) (hg : Adds nc j g) : Adds nc (k + j) fun e => g (f e) := by
  intro e he
  rcases hf e he with ⟨hnc, hlen⟩
  rcases hg (f e) hnc with ⟨hnc', hlen'⟩
  refine ⟨hnc', ?_⟩
  rw [hlen', hlen, Nat.add_assoc]

theorem putRdata (hf : Adds nc k f) : Adds nc (2 + k) fun e => Mdns.putRdata e f := by
  intro e he
  rcases (Adds.put [0, 0]).comp hf e he with ⟨hnc, hlen⟩
  exact ⟨hnc, (length_putRdata f).trans hlen⟩

/-- The number of bytes is that of a message with nothing else in it. -/
theorem length_eq (hf : Adds nc k f) : (f ⟨[], nc⟩).buf.length = k :=
  (hf ⟨[], nc⟩ rfl).2.trans (Nat.zero_add k)

end Adds

section Full

variable {nc : List (Str × Nat)} (hfull : ncMax ≤ nc.length)
include hfull

theorem adds_remember (name : Str) : Adds nc 0 fun e => e.remember name := by
  intro e he
  refine ⟨?_, rfl⟩
  show ncAdd e.nc name e.buf.length = nc
  rw [he, ncAdd, if_pos (Or.inl hfull)]

theorem adds_namePutLoop (fuel : Nat) (first : Bool) (cur : Str) :
    ∃ k, Adds nc k (namePutLoop fuel first cur) := by
  induction fuel generalizing first cur with
  | zero => exact ⟨0, fun e he => ⟨he, rfl⟩⟩
  | succ fuel ih =>
      rcases cur with _ | ⟨c, rest⟩
      · cases first
        · exact ⟨_, Adds.put [0]⟩
        · exact ⟨_, Adds.put [0]⟩
      · rcases ih false (tailName (c :: rest)) with ⟨k, hrest⟩
        have hlabel : ∃ j, Adds nc j fun e => putLabel e (c :: rest) := ⟨_, Adds.put _⟩
        rcases hlabel with ⟨j, hlabel⟩
        cases first with
        | true => exact ⟨_, hlabel.comp hrest⟩
        | false =>
            -- what the cache holds decides between a pointer and a label
            cases hfind : ncFind nc (c :: rest) with
            | some off =>
                refine ⟨2, fun e he => ?_⟩
                simp only [namePutLoop, he, hfind]
                exact ⟨he, length_putPointer ..⟩
            | none =>
                refine ⟨0 + (j + k), fun e he => ?_⟩
                simp only [namePutLoop, he, hfind]
                exact ((adds_remember hfull (c :: rest)).comp (hlabel.comp hrest)) e he

theorem adds_namePut (name : Str) : ∃ k, Adds nc k fun e => namePut e name := by
  rcases adds_namePutLoop hfull (name.length + 1) true name with ⟨k, hloop⟩
  cases hfind : ncFind nc name with
  | some off =>
      refine ⟨2, fun e he => ?_⟩
      simp only [namePut, he, hfind]
      exact ⟨he, length_putPointer ..⟩
  | none =>
      refine ⟨0 + k, fun e he => ?_⟩
      simp only [namePut, he, hfind]
      exact ((adds_remember hfull name).comp hloop) e he

theorem adds_putRrHead (owner : Str) (type cls ttl : Nat) :
    ∃ k, Adds nc k fun e => putRrHead e owner type cls ttl := by
  rcases adds_namePut hfull owner with ⟨k, hname⟩
  exact ⟨_, hname.comp (Adds.put _)⟩

theorem adds_putPtr (svc inst : Str) : ∃ k, Adds nc k fun e => putPtr e svc inst := by
  rcases adds_putRrHead hfull svc dnsTPtr dnsCIn mdnsTtl with ⟨k, hhead⟩
  rcases adds_namePut hfull inst with ⟨j, hname⟩
  exact ⟨_, hhead.comp hname.putRdata⟩

theorem adds_putSrv (b : Board) (inst : Str) (port : Nat) :
    ∃ k, Adds nc k fun e => putSrv b e inst port := by
  rcases adds_putRrHead hfull inst dnsTSrv dnsCInFlush mdnsTtlA with ⟨k, hhead⟩
  rcases adds_namePut hfull b.nHost with ⟨j, hname⟩
  exact ⟨_, hhead.comp ((Adds.put _).comp hname).putRdata⟩

theorem adds_putTxt (inst : Str) (text : List UInt8) :
    ∃ k, Adds nc k fun e => putTxt e inst text := by
  rcases adds_putRrHead hfull inst dnsTTxt dnsCInFlush mdnsTtlTxt with ⟨k, hhead⟩
  exact ⟨_, hhead.comp (Adds.put text).putRdata⟩

theorem adds_encode_some (b : Board) (x : Entry) : ∃ k, Adds nc k fun e => encode b e x := by
  cases x with
  | services s => exact adds_putPtr hfull ..
  | svcPtr s => exact adds_putPtr hfull ..
  | svcSrv s => exact adds_putSrv hfull ..
  | svcTxt s => exact adds_putTxt hfull ..
  | instPtr i => exact adds_putPtr hfull ..
  | instSrv i => exact adds_putSrv hfull ..
  | instTxt i => cases i <;> exact adds_putTxt hfull ..
  | hostA =>
      rcases adds_putRrHead hfull b.nHost dnsTA dnsCInFlush mdnsTtlA with ⟨k, hhead⟩
      exact ⟨_, hhead.comp (Adds.put _)⟩

end Full

/-- The bytes of a record, with the names `nc` in the cache. -/
def recordLength (b : Board) (nc : List (Str × Nat)) (x : Entry) : Nat :=
  (encode b ⟨[], nc⟩ x).buf.length

section Records

variable {b : Board} {nc : List (Str × Nat)} (hfull : ncMax ≤ nc.length)
include hfull

theorem adds_encode (x : Entry) : Adds nc (recordLength b nc x) fun e => encode b e x := by
  rcases adds_encode_some hfull b x with ⟨k, hadds⟩
  have hk : recordLength b nc x = k := hadds.length_eq
  rw [hk]
  exact hadds

/-- With the cache full, the records of a message add up. -/
theorem encodeAll_full (xs : List Entry) {e : Enc} (he : e.nc = nc) :
    (encodeAll b e xs).nc = nc ∧
      (encodeAll b e xs).buf.length = e.buf.length + (xs.map (recordLength b nc)).sum := by
  induction xs generalizing e with
  | nil => exact ⟨he, rfl⟩
  | cons x xs ih =>
      rcases adds_encode hfull x e he with ⟨hnc, hlen⟩
      rcases ih hnc with ⟨hnc', hlen'⟩
      refine ⟨hnc', ?_⟩
      calc (encodeAll b (encode b e x) xs).buf.length
          = (encode b e x).buf.length + (xs.map (recordLength b nc)).sum := hlen'
        _ = e.buf.length + ((x :: xs).map (recordLength b nc)).sum := by
            rw [hlen, List.map_cons, List.sum_cons, Nat.add_assoc]

/-- With the cache full, the channel loop gets at least as far as its pointers fit. -/
theorem chanPtrLoop_full (m : Nat) {k start : Nat} {o : Out} (hk : k ≤ danteTxChannels)
    (hm : m ≤ k) (ho : o.enc.nc = nc)
    (hroom : ∀ j < m, o.enc.buf.length + (((chanSeq m (danteTxChannels - k) start).take j).map
      fun c => recordLength b nc (.instPtr (.chan c))).sum < mdnsSplitBytes) :
    (chanPtrLoop b k start o).2.enc.nc = nc ∧
      o.enc.buf.length + ((chanSeq m (danteTxChannels - k) start).map
        fun c => recordLength b nc (.instPtr (.chan c))).sum ≤
          (chanPtrLoop b k start o).2.enc.buf.length := by
  induction k generalizing m start o with
  | zero =>
      rw [Nat.le_zero.1 hm]
      exact ⟨ho, Nat.le_refl _⟩
  | succ k ih =>
      let c := (start + (danteTxChannels - (k + 1))) % danteTxChannels + 1
      have hnext : danteTxChannels - (k + 1) + 1 = danteTxChannels - k := by omega
      have hemit := adds_encode (b := b) hfull (.instPtr (.chan c)) o.enc ho
      have hrest := fun m => @ih m c (emit b o (.instPtr (.chan c))) (by omega)
      rw [chanPtrLoop]
      cases m with
      | zero =>
          split
          · rcases hrest 0 (Nat.zero_le _) hemit.1
              (fun j hj => absurd hj (Nat.not_lt_zero j)) with ⟨hnc, hlen⟩
            refine ⟨hnc, le_trans ?_ hlen⟩
            rw [enc_emit, hemit.2]
            show _ + 0 ≤ _ + _ + 0
            omega
          · exact ⟨ho, Nat.le_refl _⟩
      | succ m =>
          have hseq : chanSeq (m + 1) (danteTxChannels - (k + 1)) start =
              c :: chanSeq m (danteTxChannels - k) c := by
            rw [chanSeq, hnext]
          rw [hseq] at hroom ⊢
          have hfirst : o.enc.buf.length < mdnsSplitBytes := hroom 0 (Nat.succ_pos m)
          -- what the first pointer takes is taken from the room for the others
          have hroom' : ∀ j < m, (emit b o (.instPtr (.chan c))).enc.buf.length +
              (((chanSeq m (danteTxChannels - k) c).take j).map
                fun c => recordLength b nc (.instPtr (.chan c))).sum < mdnsSplitBytes := by
            intro j hj
            have hj' := hroom (j + 1) (Nat.succ_lt_succ hj)
            rw [List.take_succ_cons, List.map_cons, List.sum_cons, ← Nat.add_assoc] at hj'
            rw [enc_emit, hemit.2]
            exact hj'
          rcases hrest m (Nat.le_of_succ_le_succ hm) hemit.1 hroom' with ⟨hnc, hlen⟩
          rw [if_pos hfirst]
          refine ⟨hnc, le_trans ?_ hlen⟩
          rw [enc_emit, hemit.2, List.map_cons, List.sum_cons, Nat.add_assoc]

end Records

/-! ## What depends on the device alone -/

theorem encode_of_dev {b b' : Board} (h : b.dev = b'.dev) (e : Enc) {x : Entry}
    (hx : x.isAdditional = false) : encode b e x = encode b' e x := by
  have hhost : b.nHost = b'.nHost := by rw [Board.nHost, Board.nHost, h]
  have hsvc : ∀ s, b.svcInst s = b'.svcInst s := fun s => by rw [Board.svcInst, Board.svcInst, h]
  have hinst : ∀ i, b.inst i = b'.inst i := by
    intro i
    cases i with
    | chan c => simp only [Board.inst, Board.chanInst, Board.instName, h]
    | bund id => simp only [Board.inst, Board.bundInst, Board.instName, h]
  have hsrv : ∀ inst port, putSrv b e inst port = putSrv b' e inst port := by
    intro inst port
    rw [putSrv, putSrv, hhost]
  cases x with
  | services s => rfl
  | svcPtr s => rw [encode, encode, hsvc]
  | svcSrv s => rw [encode, encode, hsvc, hsrv]
  | svcTxt s => rw [encode, encode, hsvc, buildTxtCmc, buildTxtCmc, h]
  | instPtr i => rw [encode, encode, hinst]
  | instSrv i => rw [encode, encode, hinst, hsrv]
  | instTxt i => cases hx
  | hostA => cases hx

theorem recordLength_of_dev {b b' : Board} (h : b.dev = b'.dev) (nc : List (Str × Nat))
    {x : Entry} (hx : x.isAdditional = false) : recordLength b nc x = recordLength b' nc x := by
  rw [recordLength, recordLength, encode_of_dev h _ hx]

/-! ## A query as it is sent -/

/-- What `name_decode` makes of a plain name. -/
def wireText (labels : List String) : Str := (dotted (labels.map ascii)).map lc

/-- A name that can be sent, and fits the buffer it is decoded into. -/
def Sendable (labels : List String) : Prop :=
  Labels (labels.map ascii) ∧ (dotted (labels.map ascii)).length ≤ qnameLen - 1

instance (labels : List String) : Decidable (Sendable labels) :=
  inferInstanceAs (Decidable (Labels (labels.map ascii) ∧ _))

theorem nameAt_wireName {m : List UInt8} {labels : List String} {p : Nat}
    (h : Labels (labels.map ascii)) (hat : At m p (wireName labels)) :
    NameAt 0 m p (labels.map ascii) 0 (p + (wireName labels).length) := by
  induction labels generalizing p with
  | nil => exact .root (Nat.zero_le _) hat
  | cons l labels ih =>
      have hsplit : wireName (l :: labels) =
          (UInt8.ofNat (ascii l).length :: ascii l) ++ wireName labels := by
        have hlen : l.length = (ascii l).length := by
          rw [ascii, List.length_map, String.length_toList]
        rw [wireName, List.flatMap_cons, hlen, List.append_assoc]
        rfl
      rw [hsplit] at hat ⊢
      rcases At.append_iff.1 hat with ⟨hlabel, hrest⟩
      have hnext : p + (UInt8.ofNat (ascii l).length :: ascii l).length =
          p + 1 + (ascii l).length := by
        rw [List.length_cons]
        omega
      have hend : p + ((UInt8.ofNat (ascii l).length :: ascii l) ++ wireName labels).length =
          p + 1 + (ascii l).length + (wireName labels).length := by
        rw [List.length_append, ← Nat.add_assoc, hnext]
      rw [hnext] at hrest
      rw [hend]
      exact .label (Nat.zero_le _) h.head hlabel (ih h.tail hrest)

/-- The bytes of one question. -/
def questionBytes (q : List String × Nat) : List UInt8 :=
  wireName q.1 ++ Mem.be16 q.2 ++ Mem.be16 dnsCIn

/-- The questions are read in the order they lie in the message. -/
theorem parseQuestions_eq {m : List UInt8} (hm : 12 ≤ m.length) {qs : List (List String × Nat)}
    (hqs : ∀ q ∈ qs, Sendable q.1 ∧ q.2 < 65536) {off : Nat}
    (hat : At m off (qs.flatMap questionBytes)) :
    parseQuestions m qs.length off = some (qs.map fun q => ⟨wireText q.1, q.2⟩) := by
  induction qs generalizing off with
  | nil => rfl
  | cons q qs ih =>
      rcases hqs q (List.mem_cons_self ..) with ⟨⟨hlabels, hlen⟩, htype⟩
      rw [List.flatMap_cons] at hat
      rcases At.append_iff.1 hat with ⟨hfirst, hrest⟩
      have hall := hfirst
      rw [questionBytes] at hfirst
      rcases At.append_iff.1 hfirst with ⟨hnametype, _⟩
      rcases At.append_iff.1 hnametype with ⟨hname, hqtype⟩
      have hdecode := nameDecode_nameAt (nameAt_wireName hlabels hname) hm (by decide) hlen
      have hsize : (questionBytes q).length = (wireName q.1).length + 4 := by
        rw [questionBytes, List.length_append, List.length_append]
        rfl
      have hend := hall.lt (List.ne_nil_of_length_pos (by omega))
      have hread : rd16 m (off + (wireName q.1).length) = q.2 :=
        (rd16_at hqtype).trans (Nat.mod_eq_of_lt htype)
      have htail := ih (fun q' hq' => hqs q' (List.mem_cons_of_mem q hq')) hrest
      rw [hsize, ← Nat.add_assoc] at htail
      rw [List.length_cons, parseQuestions, if_neg (by omega), hdecode]
      dsimp only
      rw [if_neg (by omega), htail, hread]
      rfl

/-- A message made of questions carries them. -/
theorem carries_queryMsg {qs : List (List String × Nat)} (hne : qs ≠ [])
    (hcount : qs.length < 65536)
    (hqs : ∀ q ∈ qs, Sendable q.1 ∧ q.2 < 65536) :
    Carries (queryMsg qs) (qs.map fun q => ⟨wireText q.1, q.2⟩) := by
  have hmsg : queryMsg qs = ([0, 0, 0, 0] ++ Mem.be16 qs.length ++ [0, 0, 0, 0, 0, 0]) ++
      qs.flatMap questionBytes := rfl
  have hat := At.of_append ([0, 0, 0, 0] ++ Mem.be16 qs.length ++ [0, 0, 0, 0, 0, 0])
    (qs.flatMap questionBytes)
  have hhead : At (queryMsg qs) 0 ([0, 0, 0, 0] ++ Mem.be16 qs.length) :=
    At.of_prefix ⟨_, (List.append_assoc ..).symm⟩
  have hlen : 12 ≤ (queryMsg qs).length := by
    rw [hmsg, List.length_append]
    exact Nat.le_add_right ..
  rcases At.append_iff.1 hhead with ⟨hzeros, hn⟩
  have hzeros : At (queryMsg qs) 0 ([0, 0] ++ Mem.be16 0) := hzeros
  have hflags : rd16 (queryMsg qs) 2 = 0 := rd16_at (At.append_iff.1 hzeros).2
  have hnum : rd16 (queryMsg qs) 4 = qs.length := (rd16_at hn).trans (Nat.mod_eq_of_lt hcount)
  have hpos : qs.length ≠ 0 := fun h => hne (List.length_eq_zero_iff.1 h)
  constructor
  · simp [isQuery, hlen, hflags, hnum, hpos]
  · rw [hnum]
    exact parseQuestions_eq hlen hqs hat

/-! ## A crowded board -/

/-- A device name as long as one can be, of as many labels as the cache has places. -/
def dottedName : DevName := ⟨ascii "a.b.c.d.e.f.g.h.i.jjjjjjjjjjjjj", by decide +kernel⟩

def dottedDev : DanteDev :=
  { boardAtBoot.dev with name := dottedName, hostname := dottedName }

/-- The flow table after `k` multicast flows of eight channels were bound. -/
def crowdedTx (k : Nat) : Tx :=
  (List.range k).foldl (fun t i => (bindMulticast t (BitVec.ofNat 16 (60000 + i))
    (fun c => BitVec.ofNat 16 (c.val + 1)) ⟨8, by decide⟩ 0 fun _ => (0, 0)).1)
    (danteTxInit boardAtBoot.tx)

def crowdedBoard (k : Nat) : Board :=
  { boardAtBoot with dev := dottedDev, tx := crowdedTx k }

/-- The name of an instance of that device. -/
def dottedLabels (first svc : String) : List String :=
  [first, "b", "c", "d", "e", "f", "g", "h", "i", "jjjjjjjjjjjjj", svc, "_udp", "local"]

/-- One question for each kind of record that is wanted, behind two about the device itself. -/
def crowdedAsked (chanPtr bundPtr chanOne bundOne : Bool) : List (List String × Nat) :=
  [(dottedLabels "a" "_netaudio-arc", if chanPtr then dnsTTxt else dnsTAny),
    (["_netaudio-cmc", "_udp", "local"], dnsTPtr)] ++
    (if chanPtr then [(["_netaudio-chan", "_udp", "local"], dnsTPtr)] else []) ++
    (if bundPtr then [(["_netaudio-bund", "_udp", "local"], dnsTPtr)] else []) ++
    (if chanOne then [(dottedLabels "48@a" "_netaudio-chan", dnsTSrv)] else []) ++
    (if bundOne then [(dottedLabels "000@a" "_netaudio-bund", dnsTSrv)] else [])

/-- What they want. -/
def crowdedWants (chanPtr bundPtr chanOne bundOne : Bool) : Wants :=
  (if chanPtr then [.arcTxt] else [.arcSrv, .a, .arcTxt]) ++ [.cmcPtr, .cmcSrv, .cmcTxt, .a] ++
    (if chanPtr then [.chanPtr, .a] else []) ++ (if bundPtr then [.bundPtr, .a] else []) ++
    (if chanOne then [.chanOne, .a] else []) ++ (if bundOne then [.bundOne, .a] else [])

theorem sendable_crowdedAsked : ∀ chanPtr bundPtr chanOne bundOne,
    ∀ q ∈ crowdedAsked chanPtr bundPtr chanOne bundOne, Sendable q.1 ∧ q.2 < 65536 := by
  decide +kernel

theorem classify_crowdedBoard : ∀ k < 7,
    classify (crowdedBoard k) (wireText (dottedLabels "a" "_netaudio-arc")) = .svcInst .arc ∧
    classify (crowdedBoard k) (wireText ["_netaudio-cmc", "_udp", "local"]) = .svc .cmc ∧
    classify (crowdedBoard k) (wireText ["_netaudio-chan", "_udp", "local"]) = .svc .chan ∧
    classify (crowdedBoard k) (wireText ["_netaudio-bund", "_udp", "local"]) = .svc .bund ∧
    classify (crowdedBoard k) (wireText (dottedLabels "48@a" "_netaudio-chan")) =
      .inst (.chan 48) ∧
    (0 < k → classify (crowdedBoard k) (wireText (dottedLabels "000@a" "_netaudio-bund")) =
      .inst (.bund 60000)) := by
  decide +kernel

section Crowded

variable {k : Nat} (hk : k < 7) (chanPtr bundPtr chanOne bundOne : Bool)
  (hnamed : bundOne = true → 0 < k)

/-- The questions as they are read. -/
def crowdedQuestions : List Question :=
  (crowdedAsked chanPtr bundPtr chanOne bundOne).map fun q => ⟨wireText q.1, q.2⟩

include hk hnamed

theorem wantsOf_crowded :
    wantsOf (crowdedBoard k) (crowdedQuestions chanPtr bundPtr chanOne bundOne) =
      crowdedWants chanPtr bundPtr chanOne bundOne := by
  rcases classify_crowdedBoard k hk with ⟨harc, hcmc, hchan, hbund, hone, hgroup⟩
  cases bundOne <;> cases chanPtr <;> cases bundPtr <;> cases chanOne <;>
    simp [wantsOf, crowdedQuestions, crowdedAsked, crowdedWants, harc, hcmc, hchan, hbund, hone,
      hgroup, hnamed, Target.bits, Question.wants, Question.wantsInst]

theorem idxOf_crowded :
    idxOf (crowdedBoard k) 0 (crowdedQuestions chanPtr bundPtr chanOne bundOne) =
      if bundOne then 60000 else if chanOne then 48 else 0 := by
  rcases classify_crowdedBoard k hk with ⟨harc, hcmc, hchan, hbund, hone, hgroup⟩
  cases bundOne <;> cases chanPtr <;> cases bundPtr <;> cases chanOne <;>
    simp [idxOf, lastNamed, named, crowdedQuestions, crowdedAsked, harc, hcmc, hchan, hbund, hone,
      hgroup, hnamed, Instance.idx, List.filterMap_cons, List.getLast?_cons]

end Crowded

/-- The names that fill the cache: the first name of the message, and what remains of it from each
label on. -/
def crowdedCache : List (Str × Nat) :=
  (List.range 10).map fun i => (((crowdedBoard 0).svcInst .arc).drop (2 * i), 12 + 2 * i)

theorem crowdedCache_full : ncMax ≤ crowdedCache.length := by decide

/-- Either record writes that name first. -/
theorem first_crowded :
    ((encode (crowdedBoard 0) Out.empty.enc (.svcSrv .arc)).nc = crowdedCache ∧
      (encode (crowdedBoard 0) Out.empty.enc (.svcSrv .arc)).buf.length = 125) ∧
    ((encode (crowdedBoard 0) Out.empty.enc (.svcTxt .arc)).nc = crowdedCache ∧
      (encode (crowdedBoard 0) Out.empty.enc (.svcTxt .arc)).buf.length = 191) := by
  decide +kernel

theorem records_crowded :
    recordLength (crowdedBoard 0) crowdedCache (.svcTxt .arc) = 123 ∧
    recordLength (crowdedBoard 0) crowdedCache (.svcPtr .cmc) = 94 ∧
    recordLength (crowdedBoard 0) crowdedCache (.svcSrv .cmc) = 113 ∧
    recordLength (crowdedBoard 0) crowdedCache (.svcTxt .cmc) = 203 ∧
    (∀ c ∈ chanSeq 4 0 0, 98 ≤ recordLength (crowdedBoard 0) crowdedCache (.instPtr (.chan c)) ∧
      recordLength (crowdedBoard 0) crowdedCache (.instPtr (.chan c)) ≤ 99) ∧
    (∀ i < 6, recordLength (crowdedBoard 0) crowdedCache (.instPtr (.bund (60000 + i))) = 100) ∧
    (∀ c ∈ [48, 60000],
      recordLength (crowdedBoard 0) crowdedCache (.instSrv (.chan c)) = 117) ∧
    recordLength (crowdedBoard 0) crowdedCache (.instSrv (.bund 60000)) = 118 := by
  decide +kernel

theorem additionals_crowded : ∀ k < 7,
    (∀ c ∈ [48, 60000], 184 ≤ recordLength (crowdedBoard k) crowdedCache (.instTxt (.chan c))) ∧
    (0 < k → 174 ≤ recordLength (crowdedBoard k) crowdedCache (.instTxt (.bund 60000))) ∧
    recordLength (crowdedBoard k) crowdedCache .hostA = 53 := by
  decide +kernel

theorem groupIds_crowded : ∀ k < 7,
    (crowdedBoard k).groupIds = (List.range k).map (60000 + ·) := by
  decide +kernel

/-- What is wanted, as it is put into the message. -/
theorem mem_crowdedWants : ∀ chanPtr bundPtr chanOne bundOne,
    (.chanPtr ∈ crowdedWants chanPtr bundPtr chanOne bundOne ↔ chanPtr = true) ∧
    (.bundPtr ∈ crowdedWants chanPtr bundPtr chanOne bundOne ↔ bundPtr = true) ∧
    (.chanOne ∈ crowdedWants chanPtr bundPtr chanOne bundOne ↔ chanOne = true) ∧
    (.bundOne ∈ crowdedWants chanPtr bundPtr chanOne bundOne ↔ bundOne = true) ∧
    .a ∈ crowdedWants chanPtr bundPtr chanOne bundOne ∧
    deviceEntries (crowdedWants chanPtr bundPtr chanOne bundOne) =
      (if chanPtr then [] else [.svcSrv .arc]) ++
        [.svcTxt .arc, .svcPtr .cmc, .svcSrv .cmc, .svcTxt .cmc] := by
  decide +kernel

/-- The first record fills the cache, and the others add up; neither depends on the flows. -/
theorem encodeAll_first {b b' : Board} (hdev : b.dev = b'.dev) {nc : List (Str × Nat)}
    (hfull : ncMax ≤ nc.length) {e : Enc} {x : Entry} {n : Nat} (xs : List Entry)
    (hfirst : (encode b' e x).nc = nc ∧ (encode b' e x).buf.length = n)
    (hxs : ∀ y ∈ x :: xs, y.isAdditional = false) :
    (encodeAll b e (x :: xs)).nc = nc ∧
      (encodeAll b e (x :: xs)).buf.length = n + (xs.map (recordLength b' nc)).sum := by
  have hsame : xs.map (recordLength b nc) = xs.map (recordLength b' nc) :=
    List.map_congr_left fun y hy =>
      recordLength_of_dev hdev nc (hxs y (List.mem_cons_of_mem x hy))
  rw [← encode_of_dev hdev e (hxs x (List.mem_cons_self ..))] at hfirst
  rcases encodeAll_full (b := b) hfull xs hfirst.1 with ⟨hnc, hlen⟩
  refine ⟨hnc, ?_⟩
  rw [← hsame, ← hfirst.2]
  exact hlen

/-- The records about the device itself. -/
theorem device_crowded (k : Nat) : ∀ chanPtr : Bool,
    (encodeAll (crowdedBoard k) Out.empty.enc ((if chanPtr then [] else [.svcSrv .arc]) ++
      [.svcTxt .arc, .svcPtr .cmc, .svcSrv .cmc, .svcTxt .cmc])).nc = crowdedCache ∧
    (encodeAll (crowdedBoard k) Out.empty.enc ((if chanPtr then [] else [.svcSrv .arc]) ++
      [.svcTxt .arc, .svcPtr .cmc, .svcSrv .cmc, .svcTxt .cmc])).buf.length =
        if chanPtr then 601 else 658 := by
  have hdev : (crowdedBoard k).dev = (crowdedBoard 0).dev := rfl
  rcases records_crowded with ⟨harc, hptr, hsrv, htxt, -⟩
  rintro (_ | _)
  · have hall := encodeAll_first hdev crowdedCache_full
      [.svcTxt .arc, .svcPtr .cmc, .svcSrv .cmc, .svcTxt .cmc] first_crowded.1 (by decide)
    simp only [List.map_cons, List.map_nil, List.sum_cons, List.sum_nil, harc, hptr, hsrv,
      htxt] at hall
    exact hall
  · have hall := encodeAll_first hdev crowdedCache_full
      [.svcPtr .cmc, .svcSrv .cmc, .svcTxt .cmc] first_crowded.2 (by decide)
    simp only [List.map_cons, List.map_nil, List.sum_cons, List.sum_nil, hptr, hsrv,
      htxt] at hall
    exact hall

/-- What stands in front of the records that are appended unchecked: with the channel pointers
wanted, four of them. -/
theorem head_crowded (k : Nat) (chanPtr bundPtr chanOne bundOne : Bool) {want : Wants}
    (hwant : want = crowdedWants chanPtr bundPtr chanOne bundOne) :
    (chanPtrs (crowdedBoard k) want 0
      (emitAll (crowdedBoard k) Out.empty (deviceEntries want))).2.enc.nc = crowdedCache ∧
    (if chanPtr then 993 else 658) ≤ (chanPtrs (crowdedBoard k) want 0
      (emitAll (crowdedBoard k) Out.empty (deviceEntries want))).2.enc.buf.length := by
  have hmem := mem_crowdedWants chanPtr bundPtr chanOne bundOne
  have hdevice := device_crowded k chanPtr
  have hdev : (crowdedBoard k).dev = (crowdedBoard 0).dev := rfl
  rw [← hmem.2.2.2.2.2, ← hwant, ← enc_emitAll] at hdevice
  rw [← hwant] at hmem
  generalize emitAll (crowdedBoard k) Out.empty (deviceEntries want) = o at hdevice
  rw [chanPtrs]
  cases chanPtr with
  | false =>
      rw [if_neg (by rw [hmem.1]; decide)]
      exact ⟨hdevice.1, Nat.le_of_eq hdevice.2.symm⟩
  | true =>
      have hsize : ∀ c ∈ chanSeq 4 0 0,
          98 ≤ recordLength (crowdedBoard k) crowdedCache (.instPtr (.chan c)) ∧
            recordLength (crowdedBoard k) crowdedCache (.instPtr (.chan c)) ≤ 99 := by
        intro c hc
        rw [recordLength_of_dev hdev crowdedCache rfl]
        exact records_crowded.2.2.2.2.1 c hc
      have hlen : o.enc.buf.length = 601 := hdevice.2
      have hseq : chanSeq 4 (danteTxChannels - danteTxChannels) 0 = [1, 3, 6, 10] := by decide
      have h₁ := hsize 1 (by decide)
      have h₃ := hsize 3 (by decide)
      have h₆ := hsize 6 (by decide)
      have h₁₀ := hsize 10 (by decide)
      have hloop := chanPtrLoop_full (b := crowdedBoard k) crowdedCache_full 4
        (Nat.le_refl danteTxChannels) (by decide) hdevice.1 (by
          rw [hseq, hlen, mdnsSplitBytes]
          rintro (_ | _ | _ | _ | j) hj <;>
            simp only [List.take_zero, List.take_succ_cons, List.map_cons, List.map_nil,
              List.sum_cons, List.sum_nil] <;> omega)
      rw [hseq, hlen] at hloop
      simp only [List.map_cons, List.map_nil, List.sum_cons, List.sum_nil] at hloop
      rw [if_pos (hmem.1.2 rfl)]
      refine ⟨hloop.1, le_trans ?_ hloop.2⟩
      rw [if_pos rfl]
      omega

theorem sum_map_ite (p : Prop) [Decidable p] (xs : List Entry) (f : Entry → Nat) :
    ((if p then xs else []).map f).sum = if p then (xs.map f).sum else 0 := by
  split <;> rfl

/-- What is appended unchecked. -/
theorem tail_crowded {k : Nat} (hk : k < 7) {want : Wants} {idx : Nat}
    (hchan : .chanOne ∈ want → idx ∈ [48, 60000])
    (hbund : .bundOne ∈ want → 0 < k ∧ idx = 60000) (ha : .a ∈ want) :
    (if .bundPtr ∈ want then 100 * k else 0) + (if .chanOne ∈ want then 301 else 0) +
        (if .bundOne ∈ want then 292 else 0) + 53 ≤
      ((tailEntries (crowdedBoard k) want idx).map
        (recordLength (crowdedBoard k) crowdedCache)).sum := by
  have hdev : (crowdedBoard k).dev = (crowdedBoard 0).dev := rfl
  rcases records_crowded with ⟨-, -, -, -, -, hptr, hchanSrv, hbundSrv⟩
  rcases additionals_crowded k hk with ⟨hchanTxt, hbundTxt, hhost⟩
  -- the groups: a hundred bytes each
  have hptrs : (((crowdedBoard k).groupIds.map fun id => Entry.instPtr (.bund id)).map
      (recordLength (crowdedBoard k) crowdedCache)).sum = 100 * k := by
    have hsize : ∀ i ∈ List.range k,
        recordLength (crowdedBoard k) crowdedCache (.instPtr (.bund (60000 + i))) = 100 := by
      intro i hi
      have hi := List.mem_range.1 hi
      rw [recordLength_of_dev hdev crowdedCache rfl]
      exact hptr i (by omega)
    rw [groupIds_crowded k hk, List.map_map, List.map_map]
    generalize recordLength (crowdedBoard k) crowdedCache = size at hsize ⊢
    calc ((List.range k).map fun i => size (.instPtr (.bund (60000 + i)))).sum
        = ((List.range k).map fun _ => 100).sum := by rw [List.map_congr_left hsize]
      _ = 100 * k := by simp [Nat.mul_comm]
  have hone : .chanOne ∈ want → 301 ≤
      recordLength (crowdedBoard k) crowdedCache (.instSrv (.chan idx)) +
        recordLength (crowdedBoard k) crowdedCache (.instTxt (.chan idx)) := by
    intro h
    have hsrv := (recordLength_of_dev hdev crowdedCache rfl).trans (hchanSrv idx (hchan h))
    have htxt := hchanTxt idx (hchan h)
    omega
  have hgroup : .bundOne ∈ want → 292 ≤
      recordLength (crowdedBoard k) crowdedCache (.instSrv (.bund idx)) +
        recordLength (crowdedBoard k) crowdedCache (.instTxt (.bund idx)) := by
    intro h
    rcases hbund h with ⟨hpos, rfl⟩
    have hsrv := (recordLength_of_dev hdev crowdedCache rfl).trans hbundSrv
    have htxt := hbundTxt hpos
    omega
  simp only [tailEntries, List.map_append, List.sum_append, sum_map_ite, if_pos ha,
    List.map_cons, List.map_nil, List.sum_cons, List.sum_nil, hptrs, hhost, Nat.add_zero]
  by_cases hc : .chanOne ∈ want <;> by_cases hb : .bundOne ∈ want
  · have := hone hc
    have := hgroup hb
    simp only [if_pos hc, if_pos hb]
    omega
  · have := hone hc
    simp only [if_pos hc, if_neg hb]
    omega
  · have := hgroup hb
    simp only [if_neg hc, if_pos hb]
    omega
  · simp only [if_neg hc, if_neg hb]
    omega

theorem length_crowded {k : Nat} (hk : k < 7) (chanPtr bundPtr chanOne bundOne : Bool)
    (hnamed : bundOne = true → 0 < k) :
    (if chanPtr then 993 else 658) + ((if bundPtr then 100 * k else 0) +
        (if chanOne then 301 else 0) + (if bundOne then 292 else 0) + 53) ≤
      (responseTo (crowdedBoard k) mdnsInit
        (crowdedQuestions chanPtr bundPtr chanOne bundOne)).enc.buf.length := by
  have hidx : idxOf (crowdedBoard k) mdnsInit.wantIdx
      (crowdedQuestions chanPtr bundPtr chanOne bundOne) =
        if bundOne then 60000 else if chanOne then 48 else 0 :=
    idxOf_crowded hk chanPtr bundPtr chanOne bundOne hnamed
  rw [responseTo, hidx, wantsOf_crowded hk chanPtr bundPtr chanOne bundOne hnamed,
    length_assemble]
  generalize hwant : crowdedWants chanPtr bundPtr chanOne bundOne = want
  have hmem := mem_crowdedWants chanPtr bundPtr chanOne bundOne
  rw [hwant] at hmem
  rcases hmem with ⟨-, hp, ho, hu, ha, -⟩
  have hhead := head_crowded k chanPtr bundPtr chanOne bundOne hwant.symm
  have hchan : .chanOne ∈ want →
      (if bundOne then 60000 else if chanOne then 48 else 0) ∈ [48, 60000] := by
    intro h
    rw [ho.1 h]
    cases bundOne <;> decide
  have htail := tail_crowded hk hchan (fun h => ⟨hnamed (hu.1 h), if_pos (hu.1 h)⟩) ha
  simp only [hp, ho, hu] at htail
  show _ ≤ (encodeAll (crowdedBoard k) (chanPtrs (crowdedBoard k) want 0 _).2.enc _).buf.length
  rw [(encodeAll_full crowdedCache_full _ hhead.1).2]
  exact Nat.add_le_add hhead.2 htail

/-! ## The queries that are answered -/

/-- A response that is too long is dropped whole. -/
theorem sent_sendResponse_long {b : Board} {r : Responder} {n : Net} {want : Wants}
    (hlong : netMaxPayload < (assemble b r.chanPtrStart r.wantIdx want).2.enc.buf.length) :
    (sendResponse b r n want).2.sent = n.sent := by
  rw [sendResponse]
  split
  · rfl
  · simp only [netUdpCommit, if_pos hlong]
    rfl

theorem not_leaves_of_long {b : Board} {r : Responder} {n : Net} {msg : List UInt8}
    {qs : List Question} (hquery : queryOf msg = some qs) (hwant : wantsOf b qs ≠ [])
    (hlong : netMaxPayload < (responseTo b r qs).enc.buf.length) : ¬ Leaves b r n msg := by
  intro h
  have hsent := (h.answered qs hquery hwant).1
  have hnew : responseTo b r qs ∈ (mdnsRx b r n msg).1.responses.drop r.responses.length := by
    rw [hsent, List.drop_left]
    exact List.mem_cons_self ..
  exact absurd (h.fits _ hnew).1 (Nat.not_le.2 hlong)

theorem queryOf_of_carries {msg : List UInt8} {qs : List Question} (h : Carries msg qs) :
    queryOf msg = some qs := by
  rw [queryOf, if_pos h.1]
  exact readQuestions_of_parseQuestions h.2

section Kinds

variable (d : Demand)

/-- The query that demands `d` of the crowded board. -/
def demandMsg : List UInt8 := queryMsg (crowdedAsked d.chanPtr d.bundPtr d.chanOne d.bundOne)

def demandQuestions : List Question :=
  crowdedQuestions d.chanPtr d.bundPtr d.chanOne d.bundOne

theorem groups_lt : d.groups < 7 := Nat.lt_succ_of_le d.few

theorem queryOf_demandMsg : queryOf (demandMsg d) = some (demandQuestions d) := by
  have hasked : ∀ c p o u, crowdedAsked c p o u ≠ [] ∧ (crowdedAsked c p o u).length < 65536 := by
    decide
  have hsome := hasked d.chanPtr d.bundPtr d.chanOne d.bundOne
  exact queryOf_of_carries (carries_queryMsg hsome.1 hsome.2
    (sendable_crowdedAsked d.chanPtr d.bundPtr d.chanOne d.bundOne))

theorem wantsOf_demandQuestions : wantsOf (crowdedBoard d.groups) (demandQuestions d) =
    crowdedWants d.chanPtr d.bundPtr d.chanOne d.bundOne :=
  wantsOf_crowded (groups_lt d) d.chanPtr d.bundPtr d.chanOne d.bundOne d.named

theorem demandOf_demandQuestions :
    demandOf (crowdedBoard d.groups) (demandQuestions d) = d := by
  have hmem := mem_crowdedWants d.chanPtr d.bundPtr d.chanOne d.bundOne
  have hgroups : (crowdedBoard d.groups).groupIds.length = d.groups := by
    rw [groupIds_crowded d.groups (groups_lt d), List.length_map, List.length_range]
  ext1 <;> simp [demandOf, wantsOf_demandQuestions, hmem, hgroups]

/-- A demand beyond the budget makes the response to that query too long. -/
theorem long_of_load (hload : 6 < d.load) :
    netMaxPayload < (responseTo (crowdedBoard d.groups) mdnsInit
      (demandQuestions d)).enc.buf.length := by
  refine Nat.lt_of_lt_of_le ?_
    (length_crowded (groups_lt d) d.chanPtr d.bundPtr d.chanOne d.bundOne d.named)
  rcases d with ⟨chanPtr, bundPtr, chanOne, bundOne, groups, few, named⟩
  rw [Demand.load] at hload
  show 1400 < _
  cases chanPtr <;> cases bundPtr <;> cases chanOne <;> cases bundOne <;>
    simp only [Bool.toNat_true, Bool.toNat_false, if_true, if_false, Bool.false_eq_true]
      at hload ⊢ <;> omega

end Kinds

/-- Every query of a kind leaves the board, whatever the device is called, whichever groups there
are and wherever the cursor stands, exactly if its kind loads the response with six bundle pointers
at most. -/
theorem query_leaves_iff (d : Demand) :
    (∀ (b : Board) (r : Responder) (n : Net) (msg : List UInt8), b.Stored →
      (∀ qs ∈ queryOf msg, demandOf b qs = d) → Leaves b r n msg) ↔ d.load ≤ 6 := by
  constructor
  · intro hall
    by_contra hload
    have hstored : (crowdedBoard d.groups).Stored := (by decide : 1000000 < 2 ^ 32)
    have hwant : wantsOf (crowdedBoard d.groups) (demandQuestions d) ≠ [] := by
      rw [wantsOf_demandQuestions]
      have haddr := (mem_crowdedWants d.chanPtr d.bundPtr d.chanOne d.bundOne).2.2.2.2.1
      exact List.ne_nil_of_mem haddr
    refine not_leaves_of_long (queryOf_demandMsg d) hwant (long_of_load d (Nat.lt_of_not_le hload))
      (hall (crowdedBoard d.groups) mdnsInit (Net.boot fun _ _ => 0) (demandMsg d) hstored ?_)
    intro qs hqs
    rw [queryOf_demandMsg, Option.mem_some_iff] at hqs
    rw [← hqs]
    exact demandOf_demandQuestions d
  · intro hload b r n msg hb hqs
    refine leaves_of_load hb r n fun qs hquery => ?_
    rw [hqs qs hquery]
    exact hload

/-! ## The device as it is -/

/-- The channels, the bundles, one channel and one bundle, asked for in one query. -/
def browseAndResolve : List (List String × Nat) :=
  [(["_netaudio-chan", "_udp", "local"], dnsTPtr), (["_netaudio-bund", "_udp", "local"], dnsTPtr),
    (chanName "48", dnsTSrv),
    (["100@N-Series-Switchover", "_netaudio-bund", "_udp", "local"], dnsTSrv)]

def browseAndResolveQuestions : List Question :=
  browseAndResolve.map fun q => ⟨wireText q.1, q.2⟩

theorem queryOf_browseAndResolve :
    queryOf (queryMsg browseAndResolve) = some browseAndResolveQuestions :=
  queryOf_of_carries (carries_queryMsg (by decide) (by decide) (by decide +kernel))

theorem wantsOf_browseAndResolve :
    wantsOf (boardWithGroup 100) browseAndResolveQuestions =
        [.chanPtr, .a, .bundPtr, .a, .chanOne, .a, .bundOne, .a] ∧
      idxOf (boardWithGroup 100) mdnsInit.wantIdx browseAndResolveQuestions = 100 := by
  decide +kernel

/-- The cache after seven channel pointers. -/
def ownCache : List (Str × Nat) :=
  [(Svc.name .chan, 12), (ascii "_udp.local", 27), (ascii "local", 32)] ++
    [(1, 49), (3, 85), (6, 121), (10, 157), (15, 194), (21, 231), (28, 268)].map fun x =>
      ((boardWithGroup 100).chanInst x.1, x.2)

theorem first_own :
    (encodeAll (boardWithGroup 100) Out.empty.enc (chanPtrEntries 7 0 0)).nc = ownCache ∧
      (encodeAll (boardWithGroup 100) Out.empty.enc (chanPtrEntries 7 0 0)).buf.length = 293 := by
  decide +kernel

theorem records_own :
    ((chanSeq 17 7 28).map fun c =>
      recordLength (boardWithGroup 100) ownCache (.instPtr (.chan c))) =
        [37, 37, 36, 37, 37, 37, 36, 37, 37, 36, 37, 37, 37, 37, 37, 37, 37] ∧
    ((tailEntries (boardWithGroup 100) [.chanPtr, .a, .bundPtr, .a, .chanOne, .a, .bundOne, .a]
      100).map (recordLength (boardWithGroup 100) ownCache)).sum = 544 := by
  decide +kernel

theorem length_own : 1463 ≤ (assemble (boardWithGroup 100) mdnsInit.chanPtrStart 100
    [.chanPtr, .a, .bundPtr, .a, .chanOne, .a, .bundOne, .a]).2.enc.buf.length := by
  have hfull : ncMax ≤ ownCache.length := by decide
  have hwant : .chanPtr ∈ ([.chanPtr, .a, .bundPtr, .a, .chanOne, .a, .bundOne, .a] : Wants) := by
    decide
  have hdevice : deviceEntries [.chanPtr, .a, .bundPtr, .a, .chanOne, .a, .bundOne, .a] = [] := by
    decide
  have hlast : ((chanSeq 7 (danteTxChannels - danteTxChannels) 0).getLast?).getD 0 = 28 := by
    decide
  have hfirst := first_own
  have hrecords := records_own
  generalize boardWithGroup 100 = b at hfirst hrecords ⊢
  generalize ownCache = nc at hfull hfirst hrecords
  generalize ([.chanPtr, .a, .bundPtr, .a, .chanOne, .a, .bundOne, .a] : Wants) = want
    at hwant hdevice hrecords ⊢
  rcases hrecords with ⟨hptrs, htail⟩
  rw [← enc_emitAll] at hfirst
  -- seven pointers fill the cache, seventeen more fit
  have htake := @chanPtrLoop_take b 7 danteTxChannels 0 Out.empty (Nat.le_refl _) (by decide)
    (by decide)
  rw [hlast, Nat.sub_self] at htake
  have hloop := @chanPtrLoop_full b nc hfull 17 (danteTxChannels - 7) 28
    (emitAll b Out.empty (chanPtrEntries 7 0 0)) (by decide) (by decide) hfirst.1
  have hseven : danteTxChannels - (danteTxChannels - 7) = 7 := rfl
  simp only [List.map_take, hseven, hptrs, hfirst.2] at hloop
  rcases hloop (by decide) with ⟨hnc, hlen⟩
  have hsum := (encodeAll_full (b := b) hfull (tailEntries b want 100) hnc).2
  have hhead : (chanPtrs b want mdnsInit.chanPtrStart
      (emitAll b Out.empty (deviceEntries want))).2 =
        (chanPtrLoop b (danteTxChannels - 7) 28
          (emitAll b Out.empty (chanPtrEntries 7 0 0))).2 := by
    rw [chanPtrs, if_pos hwant, hdevice, ← htake]
    rfl
  rw [length_assemble, hhead, hsum, htail]
  exact Nat.add_le_add_right (le_trans (by decide) hlen) 544

theorem sent_of_long {b : Board} {r : Responder} {n : Net} {msg : List UInt8}
    {qs : List Question} (hquery : queryOf msg = some qs)
    (hlong : netMaxPayload < (responseTo b r qs).enc.buf.length) :
    (mdnsRx b r n msg).2.sent = n.sent := by
  rcases mdnsRx_of_queryOf b r n hquery with ⟨stats, hrx⟩
  rw [hrx]
  exact sent_sendResponse_long hlong

/-- The device under its own name, with one group, has no room to answer it: nothing is sent. -/
theorem browse_and_resolve_unanswered :
    (boardWithGroup 100).Stored ∧
      queryOf (queryMsg browseAndResolve) = some browseAndResolveQuestions ∧
      netMaxPayload <
        (responseTo (boardWithGroup 100) mdnsInit browseAndResolveQuestions).enc.buf.length ∧
      (mdnsRx (boardWithGroup 100) mdnsInit (Net.boot fun _ _ => 0)
        (queryMsg browseAndResolve)).2.sent = [] ∧
      ¬ Leaves (boardWithGroup 100) mdnsInit (Net.boot fun _ _ => 0)
        (queryMsg browseAndResolve) := by
  rcases wantsOf_browseAndResolve with ⟨hwants, hidx⟩
  have hstored : (boardWithGroup 100).Stored := (by decide : 1000000 < 2 ^ 32)
  have hne : wantsOf (boardWithGroup 100) browseAndResolveQuestions ≠ [] := by
    rw [hwants]
    exact List.cons_ne_nil _ _
  have hlong : netMaxPayload <
      (responseTo (boardWithGroup 100) mdnsInit browseAndResolveQuestions).enc.buf.length := by
    rw [responseTo, hwants, hidx]
    exact Nat.lt_of_lt_of_le (by decide) length_own
  exact ⟨hstored, queryOf_browseAndResolve, hlong, sent_of_long queryOf_browseAndResolve hlong,
    not_leaves_of_long queryOf_browseAndResolve hne hlong⟩

end Mdns
end InfernoFpga
