import InfernoFpga.Firmware.InfoPoll
import InfernoFpga.Mdns.Budget
import InfernoFpga.Mdns.RoundTrip

/-!
# Announce — what the responder says unasked

`mdns_announce` is called whenever something of the device has changed.  It starts a round: the
passes that follow publish every channel once more, one in each, and three announcements of the
device, a second apart.  Queries come in between and change nothing of it; another change starts
the round again.
-/

namespace InfernoFpga
namespace Mdns

open Lib
open Lib.Timer (Ticking Ripe Spaced Unnamed due)
open Firmware

/-! ## One pass -/

section Pass

variable (b : Board) (r : Responder) (n : Net)

/-- A response changes nothing of the round. -/
theorem round_sendResponse (want : Wants) :
    (sendResponse b r n want).1.chanResweep = r.chanResweep ∧
      (sendResponse b r n want).1.announceLeft = r.announceLeft ∧
      (sendResponse b r n want).1.announceNextMs = r.announceNextMs := by
  unfold sendResponse
  split
  · exact ⟨rfl, rfl, rfl⟩
  · dsimp only
    split <;> exact ⟨rfl, rfl, rfl⟩

/-- The entries of a response without channel pointers. -/
theorem log_assemble_plain {want : Wants} (h : .chanPtr ∉ want) (start idx : Nat) :
    (assemble b start idx want).2.log = deviceEntries want ++ tailEntries b want idx := by
  obtain ⟨m, -, hnone, hlog⟩ := log_assemble_intended b start idx want
  rw [hlog, hnone h]
  rfl

/-- The channel that a pass publishes, and its entries. -/
def sweptEntries : List Entry :=
  if r.chanResweep = 0 then []
  else [.instSrv (.chan (danteTxChannels - r.chanResweep + 1)),
    .instTxt (.chan (danteTxChannels - r.chanResweep + 1))]

/-- The entries of an announcement. -/
def announcementEntries : List Entry := deviceEntries announceWants ++ [.hostA]

/-- The announcements are not over, and the next one is due. -/
def announcing (ms : Int) : Bool :=
  r.announceLeft != 0 && due (w := 31) (wrapped 32 ms) r.announceNextMs.toBitVec

/-- The test of the source is the test of a timer. -/
theorem due_iff_not_early (now next : UInt32) :
    due (w := 31) now.toBitVec next.toBitVec = true ↔
      ¬ (next ≠ 0 ∧ 2 ^ 31 ≤ (now - next).toNat) := by
  have hsign : 0 ≤ (now - next).toBitVec.toInt ↔ (now - next).toNat < 2 ^ 31 := by
    rw [BitVec.toInt_eq_toNat_cond]
    have hbv : (now - next).toBitVec.toNat = (now - next).toNat := rfl
    have hlt := (now - next).toNat_lt
    rw [hbv]
    split <;> omega
  rw [Firmware.due_iff, reached, decide_eq_true_iff, hsign, not_and_or, not_not, not_le]

theorem resweep_spec :
    replyLog r (resweep b r n).1 = sweptEntries r ∧
      (resweep b r n).1.chanResweep = r.chanResweep - 1 ∧
      (resweep b r n).1.announceLeft = r.announceLeft ∧
      (resweep b r n).1.announceNextMs = r.announceNextMs ∧
      r.responses <+: (resweep b r n).1.responses := by
  unfold resweep sweptEntries
  split
  · rename_i hzero
    refine ⟨?_, by rw [hzero], rfl, rfl, List.prefix_rfl⟩
    rw [replyLog, List.drop_length]
    rfl
  · obtain ⟨hsweep, hleft, hnext⟩ := round_sendResponse b
      { r with wantIdx := danteTxChannels - r.chanResweep + 1 } n [.chanOne]
    have hsent := (@responses_sendResponse b
      { r with wantIdx := danteTxChannels - r.chanResweep + 1 } n [.chanOne]
        (List.cons_ne_nil _ _)).1
    have hlog := @log_assemble_plain b [.chanOne] (by decide) r.chanPtrStart
      (danteTxChannels - r.chanResweep + 1)
    dsimp only at hsweep hleft hnext hsent ⊢
    generalize sendResponse b { r with wantIdx := danteTxChannels - r.chanResweep + 1 } n
      [.chanOne] = s at hsweep hleft hnext hsent ⊢
    obtain ⟨r', n'⟩ := s
    refine ⟨?_, congrArg (· - 1) hsweep, hleft, hnext, ?_⟩
    · show (r'.responses.drop _).flatMap _ = _
      rw [hsent, List.drop_left, List.flatMap_singleton, hlog]
      rfl
    · show r.responses <+: r'.responses
      rw [hsent]
      exact List.prefix_append _ _

/-- What a pass says, and what it leaves of the round. -/
theorem mdnsPoll_spec (ms : Int) :
    replyLog r (mdnsPoll b r n (clockMs ms)).1 =
        sweptEntries r ++ (if announcing r ms = true then announcementEntries else []) ∧
      (mdnsPoll b r n (clockMs ms)).1.chanResweep = r.chanResweep - 1 ∧
      (mdnsPoll b r n (clockMs ms)).1.announceLeft =
        r.announceLeft - (if announcing r ms = true then 1 else 0) ∧
      (mdnsPoll b r n (clockMs ms)).1.announceNextMs.toBitVec =
        if announcing r ms = true then wrapped 32 (ms + 1000) else r.announceNextMs.toBitVec := by
  obtain ⟨hlog, hsweep, hleft, hnext, hpre⟩ := resweep_spec b r n
  have hdue := due_iff_not_early (clockMs ms) r.announceNextMs
  rw [show (clockMs ms).toBitVec = wrapped 32 ms from rfl] at hdue
  unfold mdnsPoll
  generalize resweep b r n = s at *
  obtain ⟨r', n'⟩ := s
  dsimp only at hlog hsweep hleft hnext hpre ⊢
  rw [hleft, hnext]
  by_cases hzero : r.announceLeft = 0
  · have hno : announcing r ms = false := by rw [announcing, hzero]; rfl
    rw [if_pos hzero, hno]
    simp only [hlog, hsweep, hleft, hnext, hzero, if_false, Bool.false_eq_true, List.append_nil]
    exact ⟨trivial, trivial, trivial, trivial⟩
  rw [if_neg hzero]
  by_cases hearly : r.announceNextMs ≠ 0 ∧ 2 ^ 31 ≤ (clockMs ms - r.announceNextMs).toNat
  · have hno : announcing r ms = false := by
      rw [announcing, Bool.eq_false_iff.2 fun h => hdue.1 h hearly, Bool.and_false]
    rw [if_pos hearly, hno]
    simp only [hlog, hsweep, hleft, hnext, if_false, Bool.false_eq_true, List.append_nil]
    exact ⟨trivial, trivial, rfl, trivial⟩
  · have hyes : announcing r ms = true := by
      rw [announcing, hdue.2 hearly, bne_iff_ne.2 hzero]
      rfl
    obtain ⟨hsweep', hleft', -⟩ := round_sendResponse b r' n' announceWants
    have hsent := (@responses_sendResponse b r' n' announceWants (List.cons_ne_nil _ _)).1
    have hentries := @log_assemble_plain b announceWants (by decide) r'.chanPtrStart r'.wantIdx
    rw [if_neg hearly, hyes]
    generalize sendResponse b r' n' announceWants = s at hsweep' hleft' hsent ⊢
    obtain ⟨r'', n''⟩ := s
    refine ⟨?_, hsweep'.trans hsweep, ?_, ?_⟩
    · obtain ⟨new, hnew⟩ := hpre
      rw [replyLog, ← hnew, List.drop_left] at hlog
      show (r''.responses.drop _).flatMap _ = _
      rw [hsent, ← hnew, List.append_assoc, List.drop_left, List.flatMap_append, hlog,
        List.flatMap_singleton, hentries]
      rfl
    · show r''.announceLeft - 1 = _
      rw [hleft', hleft]
      rfl
    · exact toBitVec_heartbeat ms

/-! ### What leaves -/

/-- From `s` to `s'` some responses were sent; each left the board in a frame of its own, and reads
back as the records it was put together from. -/
def SentWhole (s s' : Responder × Net) : Prop :=
  ∃ os frames, s'.1.responses = s.1.responses ++ os ∧ s'.2.sent = s.2.sent ++ frames ∧
    frames.map (fun f => udpPayload f.bytes) = os.map (fun o => o.enc.buf) ∧
    ∀ o ∈ os, ∃ msg, Decodes b o msg

theorem SentWhole.refl (s : Responder × Net) : SentWhole b s s :=
  ⟨[], [], (List.append_nil _).symm, (List.append_nil _).symm, rfl,
    fun _ h => absurd h List.not_mem_nil⟩

theorem SentWhole.trans {b : Board} {s s' s'' : Responder × Net} (h : SentWhole b s s')
    (h' : SentWhole b s' s'') : SentWhole b s s'' := by
  obtain ⟨os, frames, hos, hframes, hbytes, hdec⟩ := h
  obtain ⟨os', frames', hos', hframes', hbytes', hdec'⟩ := h'
  refine ⟨os ++ os', frames ++ frames', ?_, ?_, ?_, fun o ho => ?_⟩
  · rw [hos', hos, List.append_assoc]
  · rw [hframes', hframes, List.append_assoc]
  · rw [List.map_append, List.map_append, hbytes, hbytes']
  · rcases List.mem_append.1 ho with ho | ho
    · exact hdec o ho
    · exact hdec' o ho

/-- Whatever is put together can be read back. -/
theorem decodes_assemble {b : Board} (hnamed : Named b) (start idx : Nat) (want : Wants) :
    ∃ msg, Decodes b (assemble b start idx want).2 msg := by
  obtain ⟨m, hm, -, hlog⟩ := log_assemble_intended b start idx want
  have hlen := length_intendedLog b start idx hm want
  rw [← hlog] at hlen
  exact decodes_finish (holds_unfinished hnamed start idx want) hlen

/-- A response without pointers and bundles is short enough to be sent. -/
theorem sentWhole_sendResponse {b : Board} (hb : b.Stored) (hnamed : Named b) {want : Wants}
    (hwant : want ≠ []) (hidx : .chanOne ∈ want → r.wantIdx < 2 ^ 16)
    (hplain : .chanPtr ∉ want ∧ .bundPtr ∉ want ∧ .bundOne ∉ want) :
    SentWhole b (r, n) (sendResponse b r n want) := by
  have hhead := length_chanPtrs b want r.chanPtrStart
  have htail := @cost_tail b hb want r.wantIdx (fun h => hidx (h.resolve_right hplain.2.2))
    (chanPtrs b want r.chanPtrStart (emitAll b Out.empty (deviceEntries want))).2.enc
  have hfit : (assemble b r.chanPtrStart r.wantIdx want).2.enc.buf.length ≤ netMaxPayload := by
    rw [length_assemble]
    show _ ≤ 1400
    rw [decide_eq_false hplain.1, headBytesMax, if_neg (by decide)] at hhead
    rw [if_neg hplain.2.1, if_neg hplain.2.2] at htail
    have hone : (if .chanOne ∈ want then 315 else 0) ≤ 315 := by split <;> decide
    omega
  obtain ⟨f, hsent, hbytes⟩ := @sent_sendResponse b r n want hwant hfit
  refine ⟨[_], [f], (@responses_sendResponse b r n want hwant).1, hsent, ?_, fun o ho => ?_⟩
  · rw [List.map_singleton, List.map_singleton, hbytes]
  · rw [List.mem_singleton.1 ho]
    exact decodes_assemble hnamed r.chanPtrStart r.wantIdx want

theorem sentWhole_resweep {b : Board} (hb : b.Stored) (hnamed : Named b) :
    SentWhole b (r, n) (resweep b r n) := by
  unfold resweep
  split
  · exact SentWhole.refl b (r, n)
  · have hsent := @sentWhole_sendResponse
      { r with wantIdx := danteTxChannels - r.chanResweep + 1 } n b hb hnamed [.chanOne]
      (List.cons_ne_nil _ _)
      (fun _ => (Nat.add_le_add_right (Nat.sub_le danteTxChannels r.chanResweep) 1).trans_lt
        (by decide))
      (by decide)
    dsimp only at hsent ⊢
    generalize sendResponse b { r with wantIdx := danteTxChannels - r.chanResweep + 1 } n
      [.chanOne] = s at hsent ⊢
    exact hsent

/-- All that a pass says leaves, and is read as it was meant. -/
theorem sentWhole_mdnsPoll {b : Board} (hb : b.Stored) (hnamed : Named b) (now : UInt32) :
    SentWhole b (r, n) (mdnsPoll b r n now) := by
  have hsweep := sentWhole_resweep r n hb hnamed
  unfold mdnsPoll
  generalize resweep b r n = s at hsweep ⊢
  rcases s with ⟨r', n'⟩
  dsimp only
  split
  · exact hsweep
  · split
    · exact hsweep
    · have hannounced := @sentWhole_sendResponse r' n' b hb hnamed announceWants
        (List.cons_ne_nil _ _) (fun h => absurd h (by decide)) (by decide)
      generalize sendResponse b r' n' announceWants = s at hannounced ⊢
      exact hsweep.trans hannounced

end Pass

/-! ## Rounds -/

/-- What the responder is called for: a pass of the main loop at a time since boot, a query, and a
change of the device. -/
inductive MdnsOp
  | poll (b : Board) (ms : Int)
  | query (b : Board) (msg : List UInt8)
  | announce

def mdnsStep (s : Responder × Net) : MdnsOp → Responder × Net
  | .poll b ms => mdnsPoll b s.1 s.2 (clockMs ms)
  | .query b msg => mdnsRx b s.1 s.2 msg
  | .announce => (mdnsAnnounce s.1, s.2)

/-- The instances whose text is sent. -/
def publishedIn (log : List Entry) : List Instance :=
  log.filterMap fun
    | .instTxt i => some i
    | _ => none

/-- The round since the last change: its passes, what they published, when they announced; and the
last pass of all. -/
structure Round where
  polls : Nat
  published : List Instance
  announcements : List Int
  last : Option Int

def Round.start : Round := ⟨0, [], [], none⟩

def observeRound (s : Responder × Net) (op : MdnsOp) (t : Round) : Round :=
  match op with
  | .poll b ms =>
      let log := replyLog s.1 (mdnsPoll b s.1 s.2 (clockMs ms)).1
      { polls := t.polls + 1
        published := t.published ++ publishedIn log
        announcements := if log.contains (.svcTxt .arc) then t.announcements ++ [ms]
          else t.announcements
        last := some ms }
  | .query _ _ => t
  | .announce => { t with polls := 0, published := [], announcements := [] }

/-- The clock does not go back, and less than half its range passes between two passes. -/
def Punctual (p : (Responder × Net) × Round) : MdnsOp → Prop
  | .poll _ ms => ∀ a, p.2.last = some a → a ≤ ms ∧ ms - a < 2 ^ 31
  | _ => True

/-- The responder against its round. -/
structure InRound (r : Responder) (t : Round) : Prop where
  swept : r.chanResweep = danteTxChannels - t.polls
  published : t.published = (List.range' 1 (min t.polls danteTxChannels)).map Instance.chan
  left : r.announceLeft + t.announcements.length = 3
  spaced : Spaced 31 1000 t.announcements
  past : ∀ f ∈ t.announcements, ∃ a, t.last = some a ∧ f ≤ a
  kept : r.announceLeft = 0 ∨
    Ticking (w := 31) 1000 r.announceNextMs.toBitVec t.announcements.getLast? (t.last.getD 0)
  begun : 0 < t.polls → t.announcements ≠ []

theorem inRound_announce (r : Responder) (last : Option Int) :
    InRound (mdnsAnnounce r) ⟨0, [], [], last⟩ where
  swept := rfl
  published := rfl
  left := rfl
  spaced := List.Pairwise.nil
  past := fun _ h => absurd h List.not_mem_nil
  kept := Or.inr Ticking.start
  begun := fun h => absurd h (Nat.lt_irrefl 0)

section Steps

variable {r : Responder} {t : Round} {ms : Int}

/-- At a pass the timer of a round that goes on was last tested not long before. -/
theorem InRound.tested (h : InRound r t) (hleft : r.announceLeft ≠ 0)
    (hin : ∀ a, t.last = some a → a ≤ ms ∧ ms - a < 2 ^ 31) :
    ∃ a, Ticking (w := 31) 1000 r.announceNextMs.toBitVec t.announcements.getLast? a ∧ a ≤ ms ∧
      ms - a < 2 ^ 31 := by
  have hkept := h.kept.resolve_left hleft
  cases hlast : t.last with
  | some a =>
    rw [hlast] at hkept
    exact ⟨a, hkept, hin a hlast⟩
  | none =>
    have hnone : t.announcements = [] := by
      refine List.eq_nil_iff_forall_not_mem.2 fun f hf => ?_
      obtain ⟨a, ha, -⟩ := h.past f hf
      rw [hlast] at ha
      cases ha
    rw [hnone] at hkept ⊢
    exact ⟨ms, hkept, le_refl ms, by rw [sub_self]; decide⟩

/-- The next channel of the sweep, or none when all have been published. -/
theorem publishedIn_swept (hswept : r.chanResweep = danteTxChannels - t.polls)
    (hpub : t.published = (List.range' 1 (min t.polls danteTxChannels)).map Instance.chan) :
    t.published ++ publishedIn (sweptEntries r) =
      (List.range' 1 (min (t.polls + 1) danteTxChannels)).map Instance.chan := by
  have hmax : danteTxChannels = 48 := rfl
  rw [hpub, sweptEntries]
  split
  · rename_i hzero
    have hsame : min (t.polls + 1) danteTxChannels = min t.polls danteTxChannels := by omega
    rw [hsame]
    exact List.append_nil _
  · rename_i hsome
    have hnow : danteTxChannels - r.chanResweep + 1 = 1 + 1 * min t.polls danteTxChannels := by omega
    have hnext : min (t.polls + 1) danteTxChannels = min t.polls danteTxChannels + 1 := by omega
    rw [hnow, hnext, List.range'_concat, List.map_append]
    rfl

theorem publishedIn_append (xs ys : List Entry) :
    publishedIn (xs ++ ys) = publishedIn xs ++ publishedIn ys := List.filterMap_append

/-- An announcement publishes no instance, and a sweep does not announce. -/
theorem observe_spec (b : Board) (n : Net) :
    observeRound (r, n) (.poll b ms) t =
      ⟨t.polls + 1, t.published ++ publishedIn (sweptEntries r),
        if announcing r ms = true then t.announcements ++ [ms] else t.announcements, some ms⟩ := by
  have hann : publishedIn announcementEntries = [] := rfl
  have hyes : announcementEntries.contains (.svcTxt .arc) = true := rfl
  have hno : (sweptEntries r).contains (.svcTxt .arc) = false := by
    rw [sweptEntries]
    split <;> rfl
  have hspec := (mdnsPoll_spec b r n ms).1
  unfold observeRound
  dsimp only
  rw [hspec]
  cases announcing r ms with
  | true =>
    have hcontains : (sweptEntries r ++ announcementEntries).contains (.svcTxt .arc) = true := by
      rw [List.contains_append, hyes, Bool.or_true]
    rw [if_pos rfl, if_pos rfl, hcontains, if_pos rfl, publishedIn_append, hann, List.append_nil]
  | false =>
    simp only [if_false, Bool.false_eq_true, List.append_nil, hno]

/-- A pass keeps the round. -/
theorem inRound_poll (h : InRound r t) (b : Board) (n : Net)
    (hin : ∀ a, t.last = some a → a ≤ ms ∧ ms - a < 2 ^ 31) :
    InRound (mdnsPoll b r n (clockMs ms)).1 (observeRound (r, n) (.poll b ms) t) := by
  obtain ⟨-, hsweep, hleft, hnext⟩ := mdnsPoll_spec b r n ms
  have hswept : (mdnsPoll b r n (clockMs ms)).1.chanResweep =
      danteTxChannels - (t.polls + 1) := by
    rw [hsweep, h.swept, Nat.sub_sub]
  have hpub := publishedIn_swept h.swept h.published
  have hpast : ∀ f ∈ t.announcements, f ≤ ms := by
    intro f hf
    obtain ⟨a, ha, hfa⟩ := h.past f hf
    exact hfa.trans (hin a ha).1
  have hlen := h.left
  rw [observe_spec]
  cases hann : announcing r ms with
  | true =>
    obtain ⟨hmore, hdue⟩ : r.announceLeft ≠ 0 ∧
        due (w := 31) (wrapped 32 ms) r.announceNextMs.toBitVec = true := by
      rw [announcing, Bool.and_eq_true, bne_iff_ne] at hann
      exact hann
    -- the pass announces, and the timer starts again
    obtain ⟨a, hkept, hat, hgap⟩ := h.tested hmore hin
    rw [hann, if_pos rfl] at hleft hnext
    rw [if_pos rfl]
    refine ⟨hswept, hpub, ?_, ?_, ?_, Or.inr ?_, fun _ => by simp⟩
    · rw [hleft, List.length_append, List.length_singleton]
      omega
    · exact h.spaced.concat hpast ((hkept.due_iff (by decide) hat hgap).1 hdue)
    · intro f hf
      rcases List.mem_append.1 hf with hf | hf
      · exact ⟨ms, rfl, hpast f hf⟩
      · exact ⟨ms, rfl, (List.mem_singleton.1 hf).le⟩
    · rw [hnext, List.getLast?_concat]
      exact Ticking.fired (by decide)
  | false =>
    rw [hann, if_neg (by decide)] at hleft hnext
    rw [if_neg (by decide)]
    rw [Nat.sub_zero] at hleft
    -- it does not: the round is over, or the next one is not due
    by_cases hzero : r.announceLeft = 0
    · refine ⟨hswept, hpub, by rw [hleft]; exact hlen, h.spaced, fun f hf => ⟨ms, rfl, hpast f hf⟩,
        Or.inl (hleft.trans hzero), fun _ hnil => ?_⟩
      rw [hnil, hzero] at hlen
      cases hlen
    · have hnot : due (w := 31) (wrapped 32 ms) r.announceNextMs.toBitVec = false := by
        rwa [announcing, bne_iff_ne.2 hzero, Bool.true_and] at hann
      obtain ⟨a, hkept, hat, hgap⟩ := h.tested hzero hin
      obtain ⟨hwaited, f, hlast, -⟩ := hkept.waited (by decide) hat hgap hnot
      refine ⟨hswept, hpub, by rw [hleft]; exact hlen, h.spaced,
        fun f hf => ⟨ms, rfl, hpast f hf⟩, Or.inr ?_, fun _ hnil => ?_⟩
      · rw [hnext]
        exact hwaited
      · rw [hnil] at hlast
        cases hlast

theorem InRound.congr {r' : Responder} (h : InRound r t) (hsweep : r'.chanResweep = r.chanResweep)
    (hleft : r'.announceLeft = r.announceLeft) (hnext : r'.announceNextMs = r.announceNextMs) :
    InRound r' t where
  swept := hsweep.trans h.swept
  published := h.published
  left := by rw [hleft, h.left]
  spaced := h.spaced
  past := h.past
  kept := by rw [hleft, hnext]; exact h.kept
  begun := h.begun

/-- A query changes nothing of the round. -/
theorem round_mdnsRx (b : Board) (r : Responder) (n : Net) (msg : List UInt8) :
    (mdnsRx b r n msg).1.chanResweep = r.chanResweep ∧
      (mdnsRx b r n msg).1.announceLeft = r.announceLeft ∧
      (mdnsRx b r n msg).1.announceNextMs = r.announceNextMs := by
  unfold mdnsRx
  split
  · dsimp only
    split
    · exact round_sendResponse b _ n _
    · exact ⟨rfl, rfl, rfl⟩
  · exact ⟨rfl, rfl, rfl⟩

theorem inRound_mdnsStep (p : (Responder × Net) × Round) (op : MdnsOp) (hin : Punctual p op)
    (h : InRound p.1.1 p.2) :
    InRound (watch mdnsStep observeRound p op).1.1 (watch mdnsStep observeRound p op).2 := by
  obtain ⟨⟨r, n⟩, t⟩ := p
  rw [watch_fst, watch_snd]
  cases op with
  | poll b ms =>
    rw [mdnsStep]
    exact inRound_poll h b n hin
  | query b msg =>
    obtain ⟨hsweep, hleft, hnext⟩ := round_mdnsRx b r n msg
    rw [mdnsStep, observeRound]
    exact h.congr hsweep hleft hnext
  | announce => exact inRound_announce r t.last

end Steps

def silentNet : Net := Net.boot fun _ _ => 0

end Mdns
end InfernoFpga
