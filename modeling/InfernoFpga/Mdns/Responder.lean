import InfernoFpga.Mdns.Record

/-!
# Responder — queries, responses and announcements

`mdnsRx` folds the questions of a query into the set of wanted records and the index of one
instance, and `sendResponse` assembles everything wanted into one message.  The responder keeps,
beside the source's variables, the responses it has assembled.
-/

namespace InfernoFpga
namespace Mdns

open Lib
open Firmware

/-! ## What is wanted -/

/-- A bit of the `want` mask. -/
inductive Want
  | arcPtr
  | arcSrv
  | arcTxt
  | cmcPtr
  | cmcSrv
  | cmcTxt
  | a
  | services
  | chanPtr
  | bundPtr
  | chanOne
  | bundOne
  deriving DecidableEq, Repr

/-- A mask, as the bits that were set in it. -/
abbrev Wants := List Want

/-- `mdns_stats_t`. -/
structure MdnsStats where
  rxQueries : UInt32
  rxIgnored : UInt32
  txResponses : UInt32
  txAnnounce : UInt32
  deriving DecidableEq

/-- The file-scope state of `mdns.c`.  `chanPtrStart` needs no wrap: what is added to it is 0
for the first channel of a response, and 48 bounds it afterwards. -/
structure Responder where
  chanPtrStart : Nat
  wantIdx : Nat
  chanResweep : Nat
  announceLeft : Nat
  announceNextMs : UInt32
  stats : MdnsStats
  responses : List Out

/-- `mdns_init`, which ends with `mdns_announce`. -/
def mdnsInit : Responder :=
  { chanPtrStart := 0, wantIdx := 0, chanResweep := danteTxChannels, announceLeft := 3
    announceNextMs := 0, stats := ⟨0, 0, 0, 0⟩, responses := [] }

/-! ## Response assembly -/

/-- The 12 bytes of header, counts still to be patched. -/
def header : List UInt8 := [0, 0, 0x84, 0x00, 0, 0, 0, 0, 0, 0, 0, 0]

def Out.empty : Out := ⟨⟨header, []⟩, 0, 0, []⟩

/-- The device's own records, each put in when its bit is wanted. -/
def deviceEntries (want : Wants) : List Entry :=
  (if .services ∈ want then [.services .arc, .services .cmc] else []) ++
    (if .arcPtr ∈ want then [.svcPtr .arc] else []) ++
    (if .arcSrv ∈ want then [.svcSrv .arc] else []) ++
    (if .arcTxt ∈ want then [.svcTxt .arc] else []) ++
    (if .cmcPtr ∈ want then [.svcPtr .cmc] else []) ++
    (if .cmcSrv ∈ want then [.svcSrv .cmc] else []) ++
    (if .cmcTxt ∈ want then [.svcTxt .cmc] else [])

/-- The channel PTR loop, with `k` turns left.  The cursor it indexes from is the one it
advances. -/
def chanPtrLoop (b : Board) : Nat → Nat → Out → Nat × Out
  | 0, start, o => (start, o)
  | k + 1, start, o =>
      if o.enc.buf.length < mdnsSplitBytes then
        let i := danteTxChannels - (k + 1)
        let c := (start + i) % danteTxChannels + 1
        chanPtrLoop b k c (emit b o (.instPtr (.chan c)))
      else (start, o)

def chanPtrs (b : Board) (want : Wants) (start : Nat) (o : Out) : Nat × Out :=
  if .chanPtr ∈ want then chanPtrLoop b danteTxChannels start o else (start, o)

/-- What follows the channel pointers: bundle pointers, the records of one instance, the host's
address. -/
def tailEntries (b : Board) (want : Wants) (idx : Nat) : List Entry :=
  (if .bundPtr ∈ want then b.groupIds.map fun id => .instPtr (.bund id) else []) ++
    (if .chanOne ∈ want then [.instSrv (.chan idx), .instTxt (.chan idx)] else []) ++
    (if .bundOne ∈ want then [.instSrv (.bund idx), .instTxt (.bund idx)] else []) ++
    (if .a ∈ want then [.hostA] else [])

/-- The counts, patched into the header. -/
def finish (o : Out) : Out :=
  { o with enc := (o.enc.patch16 6 o.answers).patch16 10 o.additional }

/-- The message `send_response` builds, and where the channel cursor is left. -/
def assemble (b : Board) (start idx : Nat) (want : Wants) : Nat × Out :=
  let (start, o) := chanPtrs b want start (emitAll b Out.empty (deviceEntries want))
  (start, finish (emitAll b o (tailEntries b want idx)))

/-- `send_response`: the message is built in the current transmit slot and committed. -/
def sendResponse (b : Board) (r : Responder) (n : Net) (want : Wants) : Responder × Net :=
  if want = [] then (r, n)
  else
    let (start, o) := assemble b r.chanPtrStart r.wantIdx want
    let r := { r with chanPtrStart := start, responses := r.responses ++ [o] }
    let (n, ok) := netUdpCommit (txStore n udpPayloadOff o.enc.buf) mdnsGroup mdnsPort mdnsPort
      o.enc.buf.length netTosBestEffort
    if ok then ({ r with stats := { r.stats with txResponses := r.stats.txResponses + 1 } }, n)
    else (r, n)

/-! ## Query handling -/

/-- One question of a query. -/
structure Question where
  name : Str
  qtype : Nat
  deriving DecidableEq, Repr

/-- What a name means to this device. -/
inductive Target
  | services
  | svc (s : Svc)
  | svcInst (s : Svc)
  | inst (i : Instance)
  | host
  | other
  deriving DecidableEq, Repr

/-- `match_chan_inst`. -/
def matchChanInst (b : Board) (q : Str) : Option Nat :=
  if hasSuffix q (dot :: Svc.name .chan) then
    (List.range' 1 danteTxChannels).find? fun c => ieq q (b.chanInst c)
  else none

/-- `match_bund_inst`. -/
def matchBundInst (b : Board) (q : Str) : Option Nat :=
  if hasSuffix q (dot :: Svc.name .bund) then b.groupIds.find? fun id => ieq q (b.bundInst id)
  else none

/-- The chain of comparisons in `mdns_rx`. -/
def classify (b : Board) (q : Str) : Target :=
  if q = nServices then .services
  else if q = Svc.name .arc then .svc .arc
  else if q = Svc.name .cmc then .svc .cmc
  else if q = (b.svcInst .arc).map lc then .svcInst .arc
  else if q = (b.svcInst .cmc).map lc then .svcInst .cmc
  else if q = Svc.name .chan then .svc .chan
  else if q = Svc.name .bund then .svc .bund
  else match matchChanInst b q with
    | some c => .inst (.chan c)
    | none => match matchBundInst b q with
      | some id => .inst (.bund id)
      | none => if q = b.nHost.map lc then .host else .other

/-- The type asked for is `type`, or any. -/
def Question.wants (q : Question) (type : Nat) : Bool := q.qtype == dnsTAny || q.qtype == type

/-- A question that the location or the text of an instance answers. -/
def Question.wantsInst (q : Question) : Bool := q.wants dnsTSrv || q.wants dnsTTxt

/-- The bits a question sets. -/
def Target.bits (q : Question) : Target → Wants
  | .services => [.services]
  | .svc .arc => if q.wants dnsTPtr then [.arcPtr, .arcSrv, .arcTxt, .a] else []
  | .svc .cmc => if q.wants dnsTPtr then [.cmcPtr, .cmcSrv, .cmcTxt, .a] else []
  | .svc .chan => if q.wants dnsTPtr then [.chanPtr, .a] else []
  | .svc .bund => if q.wants dnsTPtr then [.bundPtr, .a] else []
  | .svcInst .arc =>
      (if q.wants dnsTSrv then [.arcSrv, .a] else []) ++
        (if q.wants dnsTTxt then [.arcTxt] else [])
  | .svcInst _ =>
      (if q.wants dnsTSrv then [.cmcSrv, .a] else []) ++
        (if q.wants dnsTTxt then [.cmcTxt] else [])
  | .inst (.chan _) => if q.wantsInst then [.chanOne, .a] else []
  | .inst (.bund _) => if q.wantsInst then [.bundOne, .a] else []
  | .host => if q.wants dnsTA then [.a] else []
  | .other => []

/-- What the loop over the questions carries: the mask, the shared index, the ignored count. -/
structure Ask where
  want : Wants
  wantIdx : Nat
  ignored : UInt32

/-- One question: the index is overwritten whenever the name is an instance's. -/
def Ask.question (b : Board) (s : Ask) (q : Question) : Ask :=
  let t := classify b q.name
  { want := s.want ++ t.bits q
    wantIdx := match t with
      | .inst i => i.idx
      | _ => s.wantIdx
    ignored := if t = .other then s.ignored + 1 else s.ignored }

def rd16 (msg : List UInt8) (off : Nat) : Nat :=
  (msg.getD off 0).toNat * 256 + (msg.getD (off + 1) 0).toNat

/-- The question loop, with `k` questions announced; `false` when it gives up on the message. -/
def questionLoop (b : Board) (msg : List UInt8) : Nat → Nat → Ask → Ask × Bool
  | 0, _, s => (s, true)
  | k + 1, off, s =>
      if msg.length ≤ off then (s, true)
      else match nameDecode msg off with
        | none => (s, false)
        | some (off, name) =>
            if msg.length < off + 4 then (s, false)
            else questionLoop b msg k (off + 4) (s.question b ⟨name, rd16 msg off⟩)

/-- A query, as far as the header says: not a response, and with questions. -/
def isQuery (msg : List UInt8) : Bool :=
  decide (12 ≤ msg.length) && decide (rd16 msg 2 < 0x8000) && decide (rd16 msg 4 ≠ 0)

/-- `mdns_rx`. -/
def mdnsRx (b : Board) (r : Responder) (n : Net) (msg : List UInt8) : Responder × Net :=
  if isQuery msg then
    let stats := { r.stats with rxQueries := r.stats.rxQueries + 1 }
    let (s, ok) := questionLoop b msg (rd16 msg 4) 12 ⟨[], r.wantIdx, stats.rxIgnored⟩
    let r := { r with wantIdx := s.wantIdx, stats := { stats with rxIgnored := s.ignored } }
    if ok then sendResponse b r n s.want else (r, n)
  else (r, n)

/-! ## Announcements -/

/-- `mdns_announce`. -/
def mdnsAnnounce (r : Responder) : Responder :=
  { r with announceLeft := 3, announceNextMs := 0, chanResweep := danteTxChannels }

/-- The records of an unsolicited announcement. -/
def announceWants : Wants := [.arcPtr, .arcSrv, .arcTxt, .cmcPtr, .cmcSrv, .cmcTxt, .a]

/-- The next channel of a re-sweep. -/
def resweep (b : Board) (r : Responder) (n : Net) : Responder × Net :=
  if r.chanResweep = 0 then (r, n)
  else
    let idx := danteTxChannels - r.chanResweep + 1
    let (r, n) := sendResponse b { r with wantIdx := idx } n [.chanOne]
    ({ r with chanResweep := r.chanResweep - 1 }, n)

/-- `mdns_poll` at uptime `now`; a signed difference decides whether the next one is due. -/
def mdnsPoll (b : Board) (r : Responder) (n : Net) (now : UInt32) : Responder × Net :=
  let (r, n) := resweep b r n
  if r.announceLeft = 0 then (r, n)
  else if r.announceNextMs ≠ 0 ∧ 2 ^ 31 ≤ (now - r.announceNextMs).toNat then (r, n)
  else
    let (r, n) := sendResponse b r n announceWants
    ({ r with
        announceLeft := r.announceLeft - 1
        announceNextMs := now + 1000
        stats := { r.stats with txAnnounce := r.stats.txAnnounce + 1 } }, n)

/-! ## The channel pointers -/

/-- The channels `m` turns of the pointer loop announce, from turn `i` on. -/
def chanSeq : Nat → Nat → Nat → List Nat
  | 0, _, _ => []
  | m + 1, i, start =>
      let c := (start + i) % danteTxChannels + 1
      c :: chanSeq m (i + 1) c

@[simp] theorem length_chanSeq (m i start : Nat) : (chanSeq m i start).length = m := by
  induction m generalizing i start with
  | zero => rfl
  | succ m ih => rw [chanSeq, List.length_cons, ih]

/-- The loop announces some number of channels and stops at the last of them. -/
theorem chanPtrLoop_eq_chanSeq (b : Board) {k : Nat} (hk : k ≤ danteTxChannels) (start : Nat)
    (o : Out) :
    ∃ m ≤ k,
      (chanPtrLoop b k start o).2.log =
        o.log ++ (chanSeq m (danteTxChannels - k) start).map (fun c => .instPtr (.chan c)) ∧
      (chanPtrLoop b k start o).1 =
        ((chanSeq m (danteTxChannels - k) start).getLast?).getD start := by
  induction k generalizing start o with
  | zero => exact ⟨0, Nat.le_refl _, (List.append_nil _).symm, rfl⟩
  | succ k ih =>
      by_cases hroom : o.enc.buf.length < mdnsSplitBytes
      · let c := (start + (danteTxChannels - (k + 1))) % danteTxChannels + 1
        have hnext : danteTxChannels - (k + 1) + 1 = danteTxChannels - k := by omega
        have hstep : chanPtrLoop b (k + 1) start o =
            chanPtrLoop b k c (emit b o (.instPtr (.chan c))) := by
          rw [chanPtrLoop, if_pos hroom]
        have hseq : ∀ m, chanSeq (m + 1) (danteTxChannels - (k + 1)) start =
            c :: chanSeq m (danteTxChannels - k) c := by
          intro m
          rw [chanSeq, hnext]
        rcases ih (by omega) c (emit b o (.instPtr (.chan c))) with ⟨m, hm, hlog, hcur⟩
        refine ⟨m + 1, by omega, ?_, ?_⟩
        · rw [hstep, hlog, hseq, log_emit, List.append_assoc]
          rfl
        · rw [hstep, hcur, hseq, List.getLast?_cons]
          rfl
      · refine ⟨0, Nat.zero_le _, ?_, ?_⟩
        · rw [chanPtrLoop, if_neg hroom]
          exact (List.append_nil _).symm
        · rw [chanPtrLoop, if_neg hroom]
          rfl

/-- Without the channel service wanted, no channel is announced and the cursor stays. -/
theorem chanPtrs_eq_chanSeq (b : Board) (want : Wants) (start : Nat) (o : Out) :
    ∃ m ≤ danteTxChannels,
      (chanPtrs b want start o).2.log =
        o.log ++ (chanSeq m 0 start).map (fun c => .instPtr (.chan c)) ∧
      (chanPtrs b want start o).1 = ((chanSeq m 0 start).getLast?).getD start := by
  rw [chanPtrs]
  split
  · exact chanPtrLoop_eq_chanSeq b (Nat.le_refl _) start o
  · exact ⟨0, Nat.zero_le _, (List.append_nil _).symm, rfl⟩

/-- The log of a response: the device's records, the channel pointers, the rest. -/
theorem log_assemble (b : Board) (start idx : Nat) (want : Wants) :
    (assemble b start idx want).2.log =
      (chanPtrs b want start (emitAll b Out.empty (deviceEntries want))).2.log ++
        tailEntries b want idx :=
  log_emitAll ..

/-- What a response leaves behind: itself, and the cursor. -/
theorem responses_sendResponse {b : Board} {r : Responder} {n : Net} {want : Wants}
    (h : want ≠ []) :
    (sendResponse b r n want).1.responses =
        r.responses ++ [(assemble b r.chanPtrStart r.wantIdx want).2] ∧
      (sendResponse b r n want).1.chanPtrStart =
        (assemble b r.chanPtrStart r.wantIdx want).1 := by
  simp only [sendResponse, if_neg h]
  split <;> exact ⟨rfl, rfl⟩

end Mdns
end InfernoFpga
