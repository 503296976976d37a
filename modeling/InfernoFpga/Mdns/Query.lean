import InfernoFpga.Mdns.Responder

/-!
# Query — what a query with several questions is answered with

A query is a list of questions.  Its questions are folded into one mask and one instance index
before a record is built, so the last instance named decides which instance every question about
one is answered with.
-/

namespace InfernoFpga
namespace Mdns

open Lib
open Firmware

/-! ## The questions of a message -/

/-- All the announced questions, where every one of them is complete. -/
def parseQuestions (msg : List UInt8) : Nat → Nat → Option (List Question)
  | 0, _ => some []
  | k + 1, off =>
      if msg.length ≤ off then none
      else match nameDecode msg off with
        | none => none
        | some (off, name) =>
            if msg.length < off + 4 then none
            else (parseQuestions msg k (off + 4)).map fun qs => ⟨name, rd16 msg off⟩ :: qs

/-- A well-formed query carries these questions. -/
def Carries (msg : List UInt8) (qs : List Question) : Prop :=
  isQuery msg = true ∧ parseQuestions msg (rd16 msg 4) 12 = some qs

instance (msg : List UInt8) (qs : List Question) : Decidable (Carries msg qs) :=
  inferInstanceAs (Decidable (_ ∧ _))

/-- The questions the loop looks at: all the announced ones that the message holds, or nothing
where it gives up on the message. -/
def readQuestions (msg : List UInt8) : Nat → Nat → Option (List Question)
  | 0, _ => some []
  | k + 1, off =>
      if msg.length ≤ off then some []
      else match nameDecode msg off with
        | none => none
        | some (off, name) =>
            if msg.length < off + 4 then none
            else (readQuestions msg k (off + 4)).map fun qs => ⟨name, rd16 msg off⟩ :: qs

/-- The questions of a message that is answered. -/
def queryOf (msg : List UInt8) : Option (List Question) :=
  if isQuery msg then readQuestions msg (rd16 msg 4) 12 else none

/-- The loop is a fold over the questions it looks at, unless it gives up. -/
theorem questionLoop_eq (b : Board) (msg : List UInt8) (k off : Nat) (s : Ask) :
    (∀ qs, readQuestions msg k off = some qs →
      questionLoop b msg k off s = (qs.foldl (Ask.question b) s, true)) ∧
    (readQuestions msg k off = none → (questionLoop b msg k off s).2 = false) := by
  induction k generalizing off s with
  | zero =>
      constructor
      · rintro qs ⟨⟩
        rfl
      · rintro ⟨⟩
  | succ k ih =>
      simp only [readQuestions, questionLoop]
      split
      · constructor
        · rintro qs ⟨⟩
          rfl
        · rintro ⟨⟩
      · cases nameDecode msg off with
        | none => exact ⟨fun qs h => (Option.some_ne_none qs h.symm).elim, fun _ => rfl⟩
        | some next =>
            rcases next with ⟨off', name⟩
            dsimp only
            split
            · exact ⟨fun qs h => (Option.some_ne_none qs h.symm).elim, fun _ => rfl⟩
            · have hrest := ih (off' + 4) (s.question b ⟨name, rd16 msg off'⟩)
              constructor
              · intro qs h
                rcases Option.map_eq_some_iff.1 h with ⟨rest, hread, rfl⟩
                exact hrest.1 rest hread
              · intro h
                exact hrest.2 (Option.map_eq_none_iff.1 h)

/-- A well-formed query is looked at in full. -/
theorem readQuestions_of_parseQuestions {msg : List UInt8} {k off : Nat} {qs : List Question}
    (h : parseQuestions msg k off = some qs) : readQuestions msg k off = some qs := by
  induction k generalizing off qs with
  | zero => exact h
  | succ k ih =>
      simp only [parseQuestions] at h
      simp only [readQuestions]
      split at h
      · cases h
      · rename_i hoff
        rw [if_neg hoff]
        cases hname : nameDecode msg off with
        | none =>
            rw [hname] at h
            cases h
        | some next =>
            rcases next with ⟨off', name⟩
            rw [hname] at h
            dsimp only at h ⊢
            split at h
            · cases h
            · rename_i hroom
              rcases Option.map_eq_some_iff.1 h with ⟨rest, hrest, rfl⟩
              rw [if_neg hroom, ih hrest]
              rfl

/-- On a well-formed query the loop is a fold over the questions. -/
theorem questionLoop_eq_foldl (b : Board) {msg : List UInt8} {k off : Nat} {qs : List Question}
    (h : parseQuestions msg k off = some qs) (s : Ask) :
    questionLoop b msg k off s = (qs.foldl (Ask.question b) s, true) :=
  (questionLoop_eq b msg k off s).1 qs (readQuestions_of_parseQuestions h)

/-! ## What the fold leaves -/

/-- The instance of this device that a question names. -/
def named (b : Board) (q : Question) : Option Instance :=
  match classify b q.name with
  | .inst i => some i
  | _ => none

/-- The last instance that the questions name. -/
def lastNamed (b : Board) (qs : List Question) : Option Instance :=
  (qs.filterMap (named b)).getLast?

def wantsOf (b : Board) (qs : List Question) : Wants :=
  qs.flatMap fun q => (classify b q.name).bits q

/-- The index left for the response: that of the last instance named, else the one before. -/
def idxOf (b : Board) (idx : Nat) (qs : List Question) : Nat :=
  ((lastNamed b qs).map Instance.idx).getD idx

theorem want_foldl (b : Board) (qs : List Question) (s : Ask) :
    (qs.foldl (Ask.question b) s).want = s.want ++ wantsOf b qs := by
  induction qs generalizing s with
  | nil => exact (List.append_nil _).symm
  | cons q qs ih =>
      rw [List.foldl_cons, ih]
      exact List.append_assoc ..

theorem wantIdx_question (b : Board) (s : Ask) (q : Question) :
    (s.question b q).wantIdx = ((named b q).map Instance.idx).getD s.wantIdx := by
  simp only [Ask.question, named]
  cases classify b q.name <;> rfl

theorem wantIdx_foldl (b : Board) (qs : List Question) (s : Ask) :
    (qs.foldl (Ask.question b) s).wantIdx = idxOf b s.wantIdx qs := by
  induction qs generalizing s with
  | nil => rfl
  | cons q qs ih =>
      rw [List.foldl_cons, ih, wantIdx_question, idxOf, idxOf, lastNamed, lastNamed,
        List.filterMap_cons]
      cases named b q with
      | none => rfl
      | some i =>
          simp only [List.getLast?_cons]
          cases (qs.filterMap (named b)).getLast? <;> rfl

/-! ## What a response holds -/

/-- The instance that a location or text record belongs to. -/
def Entry.ofInst : Entry → Option Instance
  | .instSrv i => some i
  | .instTxt i => some i
  | _ => none

/-- The records of instances in a log. -/
def instEntries (log : List Entry) : List Entry := log.filter fun x => x.ofInst.isSome

theorem mem_instEntries {log : List Entry} {x : Entry} {i : Instance} (h : x.ofInst = some i) :
    x ∈ instEntries log ↔ x ∈ log := by
  rw [instEntries, List.mem_filter, h]
  exact and_iff_left rfl

theorem instEntries_append (xs ys : List Entry) :
    instEntries (xs ++ ys) = instEntries xs ++ instEntries ys :=
  List.filter_append ..

theorem instEntries_eq_nil {xs : List Entry} (h : ∀ x ∈ xs, x.ofInst = none) :
    instEntries xs = [] := by
  refine List.filter_eq_nil_iff.2 fun x hx => ?_
  rw [h x hx]
  decide

theorem instEntries_ptrs (f : Nat → Instance) (xs : List Nat) :
    instEntries (xs.map fun x => .instPtr (f x)) = [] := by
  refine instEntries_eq_nil fun x hx => ?_
  rcases List.mem_map.1 hx with ⟨c, _, rfl⟩
  rfl

theorem instEntries_deviceEntries (want : Wants) : instEntries (deviceEntries want) = [] := by
  refine instEntries_eq_nil fun x hx => ?_
  simp only [deviceEntries, List.mem_append] at hx
  rcases hx with (((((hx | hx) | hx) | hx) | hx) | hx) | hx <;> split at hx <;> simp at hx
  · rcases hx with rfl | rfl <;> rfl
  all_goals rw [hx]; rfl

def instBoth (i : Instance) : List Entry := [.instSrv i, .instTxt i]

/-- The instance records of a response: of the index as a channel, and of the index as a
bundle. -/
def oneEntries (want : Wants) (idx : Nat) : List Entry :=
  (if .chanOne ∈ want then instBoth (.chan idx) else []) ++
    (if .bundOne ∈ want then instBoth (.bund idx) else [])

theorem instEntries_tailEntries (b : Board) (want : Wants) (idx : Nat) :
    instEntries (tailEntries b want idx) = oneEntries want idx := by
  have hhost : instEntries [.hostA] = [] := rfl
  have hone : ∀ i, instEntries [.instSrv i, .instTxt i] = instBoth i := fun _ => rfl
  have hnil : instEntries [] = [] := rfl
  simp only [tailEntries, instEntries_append, oneEntries, apply_ite instEntries,
    instEntries_ptrs, hhost, hone, hnil, ite_self, List.nil_append, List.append_nil]

theorem instEntries_assemble (b : Board) (start idx : Nat) (want : Wants) :
    instEntries (assemble b start idx want).2.log = oneEntries want idx := by
  rcases chanPtrs_eq_chanSeq b want start (emitAll b Out.empty (deviceEntries want)) with
    ⟨m, _, hlog, _⟩
  rw [log_assemble, hlog, instEntries_append, instEntries_append, instEntries_ptrs, log_emitAll,
    instEntries_append, instEntries_deviceEntries, instEntries_tailEntries]
  rfl

/-! ## What a query sets -/

/-- A question asks for the records of instance `i`. -/
def AsksFor (b : Board) (i : Instance) (q : Question) : Prop :=
  named b q = some i ∧ q.wantsInst = true

instance (b : Board) (i : Instance) (q : Question) : Decidable (AsksFor b i q) :=
  inferInstanceAs (Decidable (_ ∧ _))

def Instance.bit : Instance → Want
  | .chan _ => .chanOne
  | .bund _ => .bundOne

theorem named_eq_some {b : Board} {q : Question} {i : Instance} :
    named b q = some i ↔ classify b q.name = .inst i := by
  rw [named]
  cases classify b q.name <;> simp

/-- An instance bit comes from a question for an instance of that kind. -/
theorem bit_mem_bits {b : Board} {q : Question} {w : Want} (hw : w = .chanOne ∨ w = .bundOne)
    (h : w ∈ (classify b q.name).bits q) : ∃ i, i.bit = w ∧ AsksFor b i q := by
  have hfrom : ∀ t : Target, w ∈ t.bits q →
      ∃ i, t = .inst i ∧ i.bit = w ∧ q.wantsInst = true := by
    intro t ht
    cases t with
    | inst i =>
        cases i <;> simp only [Target.bits] at ht <;> split at ht <;>
          rcases hw with rfl | rfl <;> simp_all [Instance.bit]
    | svc s => cases s <;> simp only [Target.bits] at ht <;> split at ht <;>
        rcases hw with rfl | rfl <;> simp at ht
    | svcInst s => cases s <;> simp only [Target.bits] at ht <;> split at ht <;> split at ht <;>
        rcases hw with rfl | rfl <;> simp at ht
    | host => simp only [Target.bits] at ht; split at ht <;> rcases hw with rfl | rfl <;> simp at ht
    | services => rcases hw with rfl | rfl <;> simp [Target.bits] at ht
    | other => rcases hw with rfl | rfl <;> simp [Target.bits] at ht
  rcases hfrom _ h with ⟨i, ht, hbit, hasks⟩
  exact ⟨i, hbit, named_eq_some.2 ht, hasks⟩

theorem bit_mem_of_asks {b : Board} {q : Question} {i : Instance} (h : AsksFor b i q) :
    i.bit ∈ (classify b q.name).bits q := by
  rw [named_eq_some.1 h.1]
  cases i <;> simp [Target.bits, h.2, Instance.bit]

theorem mem_wantsOf {b : Board} {qs : List Question} {w : Want} :
    w ∈ wantsOf b qs ↔ ∃ q ∈ qs, w ∈ (classify b q.name).bits q :=
  List.mem_flatMap

/-- A question that names an instance leaves an index. -/
theorem lastNamed_isSome {b : Board} {qs : List Question} {q : Question} {i : Instance}
    (hq : q ∈ qs) (h : named b q = some i) : ∃ j, lastNamed b qs = some j := by
  have hmem : i ∈ qs.filterMap (named b) := List.mem_filterMap.2 ⟨q, hq, h⟩
  cases hlast : lastNamed b qs with
  | some j => exact ⟨j, rfl⟩
  | none =>
      rw [lastNamed, List.getLast?_eq_none_iff] at hlast
      rw [hlast] at hmem
      cases hmem

theorem Instance.ext_idx {i j : Instance} (hbit : i.bit = j.bit) (hidx : i.idx = j.idx) :
    i = j := by
  cases i <;> cases j <;> simp_all [Instance.bit, Instance.idx]

/-- The instance records of a response are exactly those of the index, of a kind that is
wanted. -/
theorem mem_oneEntries {want : Wants} {idx : Nat} {x : Entry} :
    x ∈ oneEntries want idx ↔ ∃ i : Instance, i.bit ∈ want ∧ i.idx = idx ∧ x ∈ instBoth i := by
  constructor
  · intro hx
    rcases List.mem_append.1 hx with hx | hx <;> split at hx
    · rename_i hbit
      exact ⟨.chan idx, hbit, rfl, hx⟩
    · cases hx
    · rename_i hbit
      exact ⟨.bund idx, hbit, rfl, hx⟩
    · cases hx
  · rintro ⟨i, hbit, rfl, hx⟩
    cases i with
    | chan c =>
        have hbit : Want.chanOne ∈ want := hbit
        exact List.mem_append_left _ (by rw [if_pos hbit]; exact hx)
    | bund id =>
        have hbit : Want.bundOne ∈ want := hbit
        exact List.mem_append_right _ (by rw [if_pos hbit]; exact hx)

/-! ## Every question and its own instance -/

/-- The records a query was answered with. -/
def replyLog (r r' : Responder) : List Entry :=
  (r'.responses.drop r.responses.length).flatMap Out.log

/-- Every question about an instance is answered by that instance's records, or by none; and
records are sent for no instance but those asked for. -/
structure Answers (b : Board) (qs : List Question) (log : List Entry) : Prop where
  answered : ∀ q ∈ qs, ∀ i, AsksFor b i q →
    (.instSrv i ∈ log ∧ .instTxt i ∈ log) ∨ ∀ x ∈ log, x.ofInst = none
  asked : ∀ x ∈ log, ∀ i, x.ofInst = some i → ∃ q ∈ qs, AsksFor b i q

/-- Every question that asks for an instance's records names the index of the last instance
named in the query. -/
def SameIndex (b : Board) (qs : List Question) : Prop :=
  ∀ q ∈ qs, q.wantsInst = true → ∀ i ∈ named b q, ∀ j ∈ lastNamed b qs, i.idx = j.idx

instance (b : Board) (qs : List Question) : Decidable (SameIndex b qs) :=
  inferInstanceAs (Decidable (∀ q ∈ qs, _))

/-- The instance records a well-formed query is answered with. -/
theorem instEntries_replyLog (b : Board) (r : Responder) (n : Net) {msg : List UInt8}
    {qs : List Question} (h : Carries msg qs) :
    instEntries (replyLog r (mdnsRx b r n msg).1) =
      oneEntries (wantsOf b qs) (idxOf b r.wantIdx qs) := by
  have hloop := questionLoop_eq_foldl b h.2 ⟨[], r.wantIdx, r.stats.rxIgnored⟩
  simp only [mdnsRx, h.1, if_true, hloop, want_foldl, wantIdx_foldl, List.nil_append]
  by_cases hwant : wantsOf b qs = []
  · rw [hwant]
    simp [sendResponse, replyLog, oneEntries, instEntries]
  · rw [replyLog, (responses_sendResponse hwant).1, List.drop_left, List.flatMap_singleton,
      instEntries_assemble]

theorem query_answers_own_iff (b : Board) (r : Responder) (n : Net) {msg : List UInt8}
    {qs : List Question} (h : Carries msg qs) :
    Answers b qs (replyLog r (mdnsRx b r n msg).1) ↔ SameIndex b qs := by
  have hlog := instEntries_replyLog b r n h
  generalize replyLog r (mdnsRx b r n msg).1 = log at hlog
  have hmem : ∀ (x : Entry) (i : Instance), x.ofInst = some i →
      (x ∈ log ↔ x ∈ oneEntries (wantsOf b qs) (idxOf b r.wantIdx qs)) := by
    intro x i hx
    rw [← hlog, mem_instEntries hx]
  have hidx : ∀ j, lastNamed b qs = some j → idxOf b r.wantIdx qs = j.idx := by
    intro j hj
    rw [idxOf, hj]
    rfl
  -- a question that asks sets its kind's bit
  have hbit : ∀ q ∈ qs, ∀ i, AsksFor b i q → i.bit ∈ wantsOf b qs :=
    fun q hq i hasks => mem_wantsOf.2 ⟨q, hq, bit_mem_of_asks hasks⟩
  constructor
  · intro hans q hq hwants i hi j hj
    have hasks : AsksFor b i q := ⟨hi, hwants⟩
    rcases hans.answered q hq i hasks with ⟨hsrv, _⟩ | hnone
    · rcases mem_oneEntries.1 ((hmem _ i rfl).1 hsrv) with ⟨i', _, hi', hx⟩
      have hsame : i = i' := by simpa [instBoth] using hx
      rw [hsame, hi', hidx j hj]
    · obtain ⟨i', hi', hsame⟩ : ∃ i' : Instance, i'.bit = i.bit ∧
          i'.idx = idxOf b r.wantIdx qs := by
        cases i with
        | chan c => exact ⟨.chan (idxOf b r.wantIdx qs), rfl, rfl⟩
        | bund id => exact ⟨.bund (idxOf b r.wantIdx qs), rfl, rfl⟩
      have hsent : Entry.instSrv i' ∈ log := (hmem _ i' rfl).2 (mem_oneEntries.2
        ⟨i', hi' ▸ hbit q hq i hasks, hsame, List.mem_cons_self ..⟩)
      cases hnone _ hsent
  · intro hsame
    constructor
    · intro q hq i hasks
      rcases lastNamed_isSome hq hasks.1 with ⟨j, hj⟩
      have hi : i.idx = idxOf b r.wantIdx qs := (hsame q hq hasks.2 i hasks.1 j hj).trans (hidx j hj).symm
      have hboth : ∀ x ∈ instBoth i, x ∈ oneEntries (wantsOf b qs) (idxOf b r.wantIdx qs) :=
        fun x hx => mem_oneEntries.2 ⟨i, hbit q hq i hasks, hi, hx⟩
      exact Or.inl ⟨(hmem _ i rfl).2 (hboth _ (by simp [instBoth])),
        (hmem _ i rfl).2 (hboth _ (by simp [instBoth]))⟩
    · intro x hx i hi
      rcases mem_oneEntries.1 ((hmem x i hi).1 hx) with ⟨i', hwant, hi', hx'⟩
      have hown : i = i' := by
        rcases (by simpa [instBoth] using hx' : x = .instSrv i' ∨ x = .instTxt i') with rfl | rfl
        · exact (Option.some.inj hi).symm
        · exact (Option.some.inj hi).symm
      rcases mem_wantsOf.1 hwant with ⟨q, hq, hbits⟩
      obtain ⟨i'', hkind, hasks⟩ : ∃ i'', i''.bit = i'.bit ∧ AsksFor b i'' q :=
        bit_mem_bits (by cases i' <;> simp [Instance.bit]) hbits
      rcases lastNamed_isSome hq hasks.1 with ⟨j, hj⟩
      have heq : i'' = i' := Instance.ext_idx hkind
        ((hsame q hq hasks.2 i'' hasks.1 j hj).trans ((hidx j hj).symm.trans hi'.symm))
      exact ⟨q, hq, by rw [hown, ← heq]; exact hasks⟩

/-! ## Two queries -/

/-- A plain name on the wire. -/
def wireName (labels : List String) : List UInt8 :=
  labels.flatMap (fun l => UInt8.ofNat l.length :: ascii l) ++ [0]

/-- A query message for plain names. -/
def queryMsg (qs : List (List String × Nat)) : List UInt8 :=
  [0, 0, 0, 0] ++ Mem.be16 qs.length ++ [0, 0, 0, 0, 0, 0] ++
    qs.flatMap fun q => wireName q.1 ++ Mem.be16 q.2 ++ Mem.be16 dnsCIn

/-- The device as it starts, with no flow bound. -/
def boardAtBoot : Board :=
  { dev := danteDevInit ⟨0x02, 0, 0, 0, 0, 0x42⟩
    ip := ⟨169, 254, 9, 200⟩
    tx := Tx.boot ⟨169, 254, 9, 200⟩ ⟨0x02, 0, 0, 0, 0, 0x42⟩
    latencyNs := 1000000
    latencyAutoraise := false
    fppAdvMax := 4 }

def chanName (ch : String) : List String :=
  [ch ++ "@N-Series-Switchover", "_netaudio-chan", "_udp", "local"]

def chanQuestion (ch type : Nat) : Question := ⟨(boardAtBoot.chanInst ch).map lc, type⟩

/-- The location and the text of one channel, asked for in one query. -/
theorem query_answers_own_one_channel :
    Answers boardAtBoot [chanQuestion 3 dnsTSrv, chanQuestion 3 dnsTTxt]
      (replyLog mdnsInit (mdnsRx boardAtBoot mdnsInit (Net.boot fun _ _ => 0)
        (queryMsg [(chanName "3", dnsTSrv), (chanName "3", dnsTTxt)])).1) :=
  (query_answers_own_iff boardAtBoot mdnsInit (Net.boot fun _ _ => 0)
    (show Carries _ [chanQuestion 3 dnsTSrv, chanQuestion 3 dnsTTxt] by decide +kernel)).2
    (by decide +kernel)

/-- Two channels asked for in one query: only the second is answered. -/
theorem query_of_two_answers_one :
    Carries (queryMsg [(chanName "3", dnsTSrv), (chanName "5", dnsTSrv)])
      [chanQuestion 3 dnsTSrv, chanQuestion 5 dnsTSrv] ∧
    ¬ Answers boardAtBoot [chanQuestion 3 dnsTSrv, chanQuestion 5 dnsTSrv]
      (replyLog mdnsInit (mdnsRx boardAtBoot mdnsInit (Net.boot fun _ _ => 0)
        (queryMsg [(chanName "3", dnsTSrv), (chanName "5", dnsTSrv)])).1) := by
  have hcarries : Carries (queryMsg [(chanName "3", dnsTSrv), (chanName "5", dnsTSrv)])
      [chanQuestion 3 dnsTSrv, chanQuestion 5 dnsTSrv] := by decide +kernel
  refine ⟨hcarries, fun h => ?_⟩
  have hlog := instEntries_replyLog boardAtBoot mdnsInit (Net.boot fun _ _ => 0) hcarries
  have hsent : oneEntries (wantsOf boardAtBoot [chanQuestion 3 dnsTSrv, chanQuestion 5 dnsTSrv])
      (idxOf boardAtBoot mdnsInit.wantIdx [chanQuestion 3 dnsTSrv, chanQuestion 5 dnsTSrv]) =
        instBoth (.chan 5) := by decide +kernel
  rw [hsent] at hlog
  rcases h.answered _ (List.mem_cons_self ..) (.chan 3) (by decide +kernel) with ⟨hsrv, _⟩ | hnone
  · have hmem := (mem_instEntries (i := .chan 3) rfl).2 hsrv
    rw [hlog] at hmem
    revert hmem
    decide
  · have hfive : Entry.instSrv (.chan 5) ∈ instBoth (.chan 5) := List.mem_cons_self ..
    rw [← hlog, mem_instEntries (i := .chan 5) rfl] at hfive
    cases hnone _ hfive

end Mdns
end InfernoFpga
