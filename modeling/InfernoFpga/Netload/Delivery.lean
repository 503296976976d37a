import InfernoFpga.Netload.Agreement
import InfernoFpga.Netload.ImageCrc

/-!
# Delivery — a transfer over a lossy network comes to its end

Sender and loader take turns: the sender's frame is lost, or the loader's answer to it, or the
answer arrives.  A lost answer leaves the loader one chunk ahead of the sender; its next answer
says so, and the sender catches up.  As long as the losses of one chunk stay below the sender's
retries and the answer to EXEC is not lost, every answer brings the transfer forward, and it ends
with the image in the code RAM.
-/

namespace InfernoFpga
namespace Netload

open Lib
open Firmware (Mac)

/-! ## Exchanges -/

/-- What becomes of the sender's frame. -/
inductive Fate
  | requestLost
  | replyLost
  | answered
  deriving DecidableEq, Repr

/-- The loader's loop turns some times without a frame before the sender's next one has its fate. -/
structure Exchange where
  idle : Nat
  fate : Fate
  deriving DecidableEq, Repr

def Exchange.isAnswered (e : Exchange) : Bool := e.fate == .answered

/-- The last frame is the one that the sender waits for an answer to. -/
def fateEvents (s : Link) : Fate → List Event
  | .requestLost => [.timeout false]
  | .replyLost => [.poll (some (s.toLoader.length - 1)), .timeout false]
  | .answered => [.poll (some (s.toLoader.length - 1)), .reply s.toHost.length false]

def exchange (c : Sender) (s : Link) (e : Exchange) : Link :=
  run (linkStep c) s (List.replicate e.idle (.poll none) ++ fateEvents s e.fate)

/-- The window is still open when the START comes, a chunk is not given up, and of the answers only
that to EXEC has to come through. -/
def bearable (c : Sender) (s : Link) (e : Exchange) : Bool :=
  match s.host.stage with
  | .start => s.loader.started || decide (s.loader.spins + e.idle + 1 ≤ netloadWindowSpins)
  | .data _ attempt => e.isAnswered || decide (attempt + 1 < c.retries)
  | .exec attempt =>
      e.isAnswered || e.fate == .requestLost && decide (attempt + 1 < c.retries)
  | .ended _ => true

def Bearable (c : Sender) (s : Link) (e : Exchange) : Prop := bearable c s e = true

instance (c : Sender) (s : Link) (e : Exchange) : Decidable (Bearable c s e) :=
  inferInstanceAs (Decidable (_ = _))

/-! ## Frames -/

section Frames

variable {c : Sender} {src dst : Mac} {op : UInt8} {arg0 arg1 : Nat} {payload : List UInt8}

theorem length_build (src dst : Mac) (op : UInt8) (arg0 arg1 : Nat) (payload : List UInt8) :
    (build src dst op arg0 arg1 payload).length = nlHdrLen + payload.length := by
  simp only [build, List.length_append]
  rfl

/-- A frame of the sender is one of the protocol's. -/
theorem delivered_build_isNetload :
    (delivered (build src dst op arg0 arg1 payload)).isNetload = true := by
  have hlen : nlHdrLen ≤ (delivered (build src dst op arg0 arg1 payload)).len := by
    show nlHdrLen ≤ if _ < 60 then 60 else _
    rw [length_build]
    split
    · decide
    · exact Nat.le_add_right _ _
  have htype : Mem.rd16 (delivered (build src dst op arg0 arg1 payload)).slot 12 =
      nlEthertype % 2 ^ 16 := Mem.rd16_of_be16 rfl
  have hmagic : Mem.rd32 (delivered (build src dst op arg0 arg1 payload)).slot 14 =
      imgMagic % 2 ^ 32 := Mem.rd32_of_be32 rfl
  rw [Rx.isNetload, htype, hmagic, decide_eq_true hlen]
  rfl

/-- The announced payload is taken whole, padding or not. -/
theorem delivered_build_payload (hlen : payload.length ≤ nlMaxPayload) :
    (delivered (build src dst op arg0 payload.length payload)).plen = payload.length ∧
      (delivered (build src dst op arg0 payload.length payload)).payload = payload := by
  have hmax : nlMaxPayload = 1024 := rfl
  have hhdr : nlHdrLen = 28 := rfl
  have harg : (delivered (build src dst op arg0 payload.length payload)).arg1 = payload.length := by
    rw [delivered_build_arg1, Nat.mod_eq_of_lt (by omega)]
  have hplen : (delivered (build src dst op arg0 payload.length payload)).plen =
      payload.length := by
    have hroom : payload.length ≤
        (delivered (build src dst op arg0 payload.length payload)).len - nlHdrLen := by
      show payload.length ≤ (if _ < 60 then 60 else _) - nlHdrLen
      rw [length_build]
      split <;> omega
    have hcap : (if nlMaxPayload < payload.length then nlMaxPayload else payload.length) =
        payload.length := if_neg (by omega)
    simp only [Rx.plen, harg, hcap]
    exact if_neg (by omega)
  refine ⟨hplen, ?_⟩
  rw [Rx.payload, hplen]
  have hbytes : (delivered (build src dst op arg0 payload.length payload)).slot =
      fun k => (build src dst op arg0 payload.length payload).getD k 0 := rfl
  have hsplit : ∃ front : List UInt8, front.length = nlHdrLen ∧
      build src dst op arg0 payload.length payload = front ++ payload := ⟨_, rfl, rfl⟩
  obtain ⟨front, hfront, hbuild⟩ := hsplit
  rw [hbytes, hbuild]
  have hat : At (front ++ payload) (0 + front.length) payload :=
    (At.append_iff.1 (At.of_prefix List.prefix_rfl)).2
  rw [Nat.zero_add, hfront] at hat
  exact hat.slice_getD

/-- The sender reads in an answer what the loader has put there. -/
theorem parseReply_nlReply (req : Rx) (hop : op = opAck ∨ op = opNak) {off : Nat}
    (hoff : off < 2 ^ 32) :
    parseReply (nlReply req op off) = some ⟨op, off, ourMac⟩ := by
  have hbytes : (fun k => (nlReply req op off).getD k 0 : Mem) 18 = op := rfl
  have htype : Mem.rd16 (fun k => (nlReply req op off).getD k 0) 12 = nlEthertype % 2 ^ 16 :=
    Mem.rd16_of_be16 rfl
  have hmagic : Mem.rd32 (fun k => (nlReply req op off).getD k 0) 14 = imgMagic % 2 ^ 32 :=
    Mem.rd32_of_be32 rfl
  have harg : Mem.rd32 (fun k => (nlReply req op off).getD k 0) 20 = off % 2 ^ 32 :=
    Mem.rd32_of_be32 rfl
  have hlen : (nlReply req op off).length = 60 := rfl
  have hknown : ¬ (op ≠ opAck ∧ op ≠ opNak) := fun h => hop.elim h.1 h.2
  unfold parseReply
  dsimp only
  rw [hlen, htype, hmagic, harg, if_neg (by decide), if_neg (by decide), if_neg (by decide),
    Nat.mod_eq_of_lt hoff]
  exact if_neg hknown

end Frames

/-! ## The loader's side of an exchange -/

/-- A transfer of the sender's image is under way, and the loader has its first `off` bytes. -/
structure Receiving (c : Sender) (l : Loader) (off : Nat) : Prop where
  running : l.returned = none
  started : l.started = true
  imgLen : l.imgLen = c.len
  imgCrc : l.imgCrc = c.crc
  nextOff : l.nextOff = off
  stored : Mem.slice l.coderam 0 off = c.image.val.take off

section Loader

variable {c : Sender} {l : Loader} {off : Nat} {dst : Mac}

theorem length_chunk (c : Sender) (off : Nat) :
    (c.chunk off).length = min chunkLen (c.len - off) := by
  rw [Sender.chunk, List.length_take, List.length_drop]
  rfl

/-- The window does not close in `n` more turns. -/
def WindowOpen (l : Loader) (n : Nat) : Prop :=
  l.started = true ∨ l.spins + n ≤ netloadWindowSpins

theorem WindowOpen.mono {n k : Nat} (h : WindowOpen l n) (hk : k ≤ n) : WindowOpen l k :=
  h.imp_right fun hn => (Nat.add_le_add_left hk _).trans hn

theorem not_expired (h : WindowOpen l 1) : expired l = false := by
  have hmax : netloadWindowSpins = 4000000 := rfl
  rcases h with hstarted | hspins
  · rw [expired, hstarted]
    rfl
  · cases hstarted : l.started with
    | true =>
      rw [expired, hstarted]
      rfl
    | false =>
      have hcount : (spin l).spins = (l.spins + 1) % 2 ^ 32 := by
        rw [spin, hstarted, if_neg (by decide)]
      rw [expired, hcount, decide_eq_false (by omega), Bool.and_false]

/-- What stays of the loader over turns without a frame. -/
def Idled (l l' : Loader) (n : Nat) : Prop :=
  ∃ spins, l' = { l with spins := spins } ∧ (l.started = true ∨ spins = l.spins + n)

theorem idled_poll (hrun : l.returned = none) (h : WindowOpen l 1) :
    Idled l (poll l none).1 1 := by
  have hmax : netloadWindowSpins = 4000000 := rfl
  have hpoll : (poll l none).1 = spin l := by
    simp only [poll, hrun, not_expired h, if_false, Bool.false_eq_true]
  rw [hpoll, spin]
  split
  · rename_i hstarted
    exact ⟨l.spins, rfl, Or.inl hstarted⟩
  · rename_i hstarted
    refine ⟨_, rfl, Or.inr (Nat.mod_eq_of_lt ?_)⟩
    rcases h with hs | hs
    · exact absurd hs hstarted
    · omega

/-- A frame of the protocol is handled while the window is open. -/
theorem poll_frame {f : Rx} (hrun : l.returned = none) (h : WindowOpen l 1)
    (hf : f.isNetload = true) : poll l (some f) = handle (spin l) f := by
  simp only [poll, hrun, not_expired h, hf, if_true, if_false, Bool.false_eq_true]

/-- The first START that comes, and any further one, begins the transfer. -/
theorem poll_start (hrun : l.returned = none) (h : WindowOpen l 1) (src : Mac) :
    ∃ l' f, poll l (some (delivered (build src Mac.broadcast opStart c.len c.crc []))) =
        (l', some (nlReply f opAck 0)) ∧ Receiving c l' 0 := by
  have harg0 : (delivered (build src Mac.broadcast opStart c.len c.crc [])).arg0 = c.len := by
    rw [delivered_build_arg0, Nat.mod_eq_of_lt (len_lt c)]
  have harg1 : (delivered (build src Mac.broadcast opStart c.len c.crc [])).arg1 = c.crc := by
    rw [delivered_build_arg1, Nat.mod_eq_of_lt (crc_lt c)]
  have hpos : c.len ≠ 0 := fun hz => c.image.property.1 (List.length_eq_zero_iff.1 hz)
  have hfits : ¬ coderamSize < c.len := not_lt.2 c.image.property.2
  have haccepts : acceptsStart (delivered (build src Mac.broadcast opStart c.len c.crc [])) =
      true := by
    rw [acceptsStart, harg0, decide_eq_false hfits, bne_iff_ne.2 hpos]
    rfl
  rw [poll_frame hrun h delivered_build_isNetload, handle, if_pos delivered_build_op,
    if_pos haccepts]
  refine ⟨_, _, rfl, ?_, rfl, harg0, harg1, rfl, rfl⟩
  exact (spin_fields l).2.1.trans hrun

theorem Receiving.spin (h : Receiving c l off) : Netload.spin l = l := by
  rw [Netload.spin, h.started]
  rfl

theorem Receiving.open (h : Receiving c l off) : WindowOpen l 1 := Or.inl h.started

/-- The expected chunk is stored behind what is there. -/
theorem Receiving.store (h : Receiving c l off) {f : Rx} (hoff : off < c.len)
    (harg : f.arg0 = off) (hplen : f.plen = (c.chunk off).length)
    (hpayload : f.payload = c.chunk off) :
    Receiving c (storeData l f) (off + (c.chunk off).length) := by
  have hlen := length_chunk c off
  have hchunk : chunkLen = 1024 := rfl
  have hsize := len_lt c
  have hmod : (off + (c.chunk off).length) % 2 ^ 32 = off + (c.chunk off).length :=
    Nat.mod_eq_of_lt (by omega)
  have hnonzero : (c.chunk off).length ≠ 0 := by omega
  have hfits : off + (c.chunk off).length ≤ c.len := by omega
  have haccepts : acceptsData l f = true := by
    rw [acceptsData, harg, hplen, h.nextOff, hmod, h.imgLen, decide_eq_true hfits,
      bne_iff_ne.2 hnonzero, beq_self_eq_true]
    rfl
  rw [storeData, if_pos haccepts]
  refine ⟨h.running, h.started, h.imgLen, h.imgCrc, ?_, ?_⟩
  · show (f.arg0 + f.plen) % 2 ^ 32 = _
    rw [harg, hplen, hmod]
  · show Mem.slice (Mem.store l.coderam f.arg0 f.payload) 0 _ = _
    have hkept : Mem.slice (Mem.store l.coderam off (c.chunk off)) 0 off =
        Mem.slice l.coderam 0 off := Mem.slice_store_disjoint (Or.inl (Nat.zero_add off).le)
    have hnew : Mem.slice (Mem.store l.coderam off (c.chunk off)) (0 + off) (c.chunk off).length =
        c.chunk off := by
      rw [Nat.zero_add]
      exact Mem.slice_store_same _ _ _
    rw [harg, hpayload, Mem.slice_append, hkept, hnew, h.stored, List.take_add]
    congr 1
    exact List.prefix_iff_eq_take.1 (List.take_prefix _ _)

/-- A chunk is stored once; when it comes again, the answer is the same. -/
theorem poll_data (src : Mac) (hoff : off < c.len)
    (h : Receiving c l off ∨ Receiving c l (off + (c.chunk off).length)) :
    ∃ l' f, poll l (some (delivered
        (build src dst opData off (c.chunk off).length (c.chunk off)))) =
          (l', some (nlReply f opAck (off + (c.chunk off).length))) ∧
        Receiving c l' (off + (c.chunk off).length) := by
  have hlen := length_chunk c off
  have hchunk : chunkLen = 1024 := rfl
  have hmax : nlMaxPayload = 1024 := rfl
  have hsize := len_lt c
  have hfits : (c.chunk off).length ≤ nlMaxPayload := by omega
  obtain ⟨hplen, hpayload⟩ :=
    @delivered_build_payload src dst opData off (c.chunk off) hfits
  have harg : (delivered (build src dst opData off (c.chunk off).length (c.chunk off))).arg0 =
      off := by
    rw [delivered_build_arg0, Nat.mod_eq_of_lt (by omega)]
  have hop : (delivered (build src dst opData off (c.chunk off).length (c.chunk off))).op =
      opData := delivered_build_op
  have hnl : (delivered (build src dst opData off (c.chunk off).length
      (c.chunk off))).isNetload = true := delivered_build_isNetload
  generalize delivered (build src dst opData off (c.chunk off).length (c.chunk off)) = f at *
  have hnext : Receiving c (storeData l f) (off + (c.chunk off).length) := by
    rcases h with h | h
    · exact h.store hoff harg hplen hpayload
    · -- the chunk is there already
      have hnot : acceptsData l f = false := by
        have hne : (off == l.nextOff) = false := by
          rw [h.nextOff, beq_eq_false_iff_ne]
          omega
        rw [acceptsData, harg, hne, Bool.and_false, Bool.false_and]
      rw [storeData, hnot, if_neg (by decide)]
      exact h
  have hrun : l.returned = none ∧ l.started = true := by
    rcases h with h | h <;> exact ⟨h.running, h.started⟩
  have hspin : spin l = l := by
    rw [spin, hrun.2]
    rfl
  rw [poll_frame hrun.1 (Or.inl hrun.2) hnl, hspin, handle,
    if_neg (fun hstart => absurd (hop.symm.trans hstart) (by decide)), if_pos ⟨hop, hrun.2⟩,
    hnext.nextOff]
  exact ⟨_, f, rfl, hnext⟩

/-- With the whole image in the code RAM an EXEC is accepted. -/
theorem poll_exec (src : Mac) (h : Receiving c l c.len) :
    ∃ l' f, poll l (some (delivered (build src dst opExec 0 0 []))) =
        (l', some (nlReply f opAck c.len)) ∧ l'.returned = some true ∧ l'.imgLen = c.len ∧
          l'.imgCrc = c.crc ∧ Mem.slice l'.coderam 0 c.len = c.image.val := by
  have hstored : Mem.slice l.coderam 0 c.len = c.image.val := by
    rw [h.stored]
    exact List.take_length
  have hcrc : storedCrc l = l.imgCrc := by
    rw [storedCrc, h.imgLen, hstored, h.imgCrc, crc32_eq_binasciiCrc32]
    rfl
  have hnext : l.nextOff = l.imgLen := h.nextOff.trans h.imgLen.symm
  rw [poll_frame h.running h.open delivered_build_isNetload, h.spin, handle,
    if_neg (fun hop => absurd (delivered_build_op.symm.trans hop) (by decide)),
    if_neg (fun hop => absurd (delivered_build_op.symm.trans hop.1) (by decide)),
    if_pos ⟨delivered_build_op, h.started⟩, if_neg (not_not.2 hnext), if_neg (not_not.2 hcrc),
    h.imgLen]
  exact ⟨_, _, rfl, rfl, rfl, h.imgCrc, hstored⟩

/-- The loader has left its loop with the image in the code RAM. -/
structure Loaded (c : Sender) (l : Loader) : Prop where
  returned : l.returned = some true
  imgLen : l.imgLen = c.len
  imgCrc : l.imgCrc = c.crc
  stored : Mem.slice l.coderam 0 c.len = c.image.val

theorem Idled.receiving {l' : Loader} {n : Nat} (h : Idled l l' n) (hr : Receiving c l off) :
    Receiving c l' off := by
  obtain ⟨spins, rfl, -⟩ := h
  exact ⟨hr.running, hr.started, hr.imgLen, hr.imgCrc, hr.nextOff, hr.stored⟩

theorem Idled.window {l' : Loader} {n k : Nat} (h : Idled l l' n) (hw : WindowOpen l (n + k)) :
    WindowOpen l' k := by
  obtain ⟨spins, rfl, hstarted | hspins⟩ := h
  · exact Or.inl hstarted
  · refine hw.imp id fun hs => ?_
    show spins + k ≤ netloadWindowSpins
    omega

end Loader

/-! ## Both sides -/

/-- How far the two have come, by the stage of the sender. -/
def AtStage (c : Sender) (l : Loader) (h : Host) : Prop :=
  match h.stage with
  | .start => l.returned = none
  | .data off _ =>
      off < c.len ∧ (Receiving c l off ∨ Receiving c l (off + (c.chunk off).length))
  | .exec _ => Receiving c l c.len
  | .ended ok => ok = true ∧ Loaded c l

/-- The last frame sent is the one that the sender waits for an answer to. -/
def Waits (c : Sender) (s : Link) : Prop :=
  ∀ bytes, outgoing c s.host = some bytes → s.toLoader[s.toLoader.length - 1]? = some bytes

structure Joint (c : Sender) (s : Link) : Prop where
  waits : Waits c s
  stage : AtStage c s.loader s.host

/-- The answers that are still to come: to START, to each chunk, and to EXEC. -/
def remaining (c : Sender) (h : Host) : Nat :=
  match h.stage with
  | .start => 2 + (c.len + 1023) / 1024
  | .data off _ => 1 + (c.len - off + 1023) / 1024
  | .exec _ => 1
  | .ended _ => 0

section Link

variable {c : Sender} {s : Link}

theorem waits_advance (h : Host) : Waits c (advance c s h) := by
  intro bytes hout
  have hout' : outgoing c h = some bytes := hout
  show (s.toLoader ++ (outgoing c h).toList)[(s.toLoader ++ (outgoing c h).toList).length - 1]? = _
  rw [hout', Option.toList_some, List.length_append, List.length_singleton, Nat.add_sub_cancel,
    List.getElem?_append_right (Nat.le_refl _), Nat.sub_self]
  rfl

/-- Turns without a frame, at the level of the link. -/
theorem run_idle (hrun : s.loader.returned = none) :
    ∀ {n : Nat}, WindowOpen s.loader (n + 1) →
      ∃ l', run (linkStep c) s (List.replicate n (.poll none)) = { s with loader := l' } ∧
        Idled s.loader l' n := by
  intro n
  induction n with
  | zero => exact fun _ => ⟨s.loader, rfl, s.loader.spins, rfl, Or.inr rfl⟩
  | succ n ih =>
    intro hopen
    obtain ⟨l', hs', hidle⟩ := ih (hopen.mono (Nat.le_succ _))
    have hrun' : l'.returned = none := by
      obtain ⟨spins, rfl, -⟩ := hidle
      exact hrun
    have hstep := idled_poll hrun' ((hidle.window (k := 2) hopen).mono (by decide))
    refine ⟨(poll l' none).1, ?_, ?_⟩
    · rw [List.replicate_succ', run_concat, hs']
      rfl
    · obtain ⟨spins, rfl, hspins⟩ := hidle
      obtain ⟨spins', hpoll, hspins'⟩ := hstep
      refine ⟨spins', hpoll, ?_⟩
      rcases hspins with hstarted | rfl
      · exact Or.inl hstarted
      · exact hspins'.imp id fun h => h.trans (Nat.add_assoc _ _ _)

/-- The loader handles the frame that the sender waits for an answer to. -/
theorem linkStep_last (hw : Waits c s) {bytes : List UInt8} (hout : outgoing c s.host = some bytes)
    {l' : Loader} {r : Option (List UInt8)}
    (hpoll : poll s.loader (some (delivered bytes)) = (l', r)) :
    linkStep c s (.poll (some (s.toLoader.length - 1))) =
      { s with
        loader := l'
        toHost := s.toHost ++ r.toList.map fun r => ((delivered bytes).op, r) } := by
  simp only [linkStep, Option.bind_some, hw bytes hout, pollLink, hpoll]

/-- The answer arrives. -/
theorem linkStep_answer {op : UInt8} {r : List UInt8} {reply : Reply} {hs : List (UInt8 × List UInt8)}
    (hreply : parseReply r = some reply) (hlast : s.toHost = hs ++ [(op, r)]) :
    linkStep c s (.reply hs.length false) = advance c s (onReply c s.host reply false) := by
  have hget : s.toHost[hs.length]? = some (op, r) := by
    rw [hlast, List.getElem?_append_right (Nat.le_refl _), Nat.sub_self]
    rfl
  simp only [linkStep, hget, Option.bind_some, hreply, replyLink]

/-- Nothing happens any more once both have ended. -/
theorem linkStep_ended {ok : Bool} (hend : s.host.stage = .ended ok)
    (hret : s.loader.returned = some true) (e : Event) :
    (linkStep c s e).host = s.host ∧ (linkStep c s e).loader = s.loader := by
  cases e with
  | poll n =>
    show (pollLink s _).host = _ ∧ (pollLink s _).loader = _
    cases n.bind fun n => s.toLoader[n]? with
    | none => exact ⟨rfl, congrArg Prod.fst (poll_returned hret none)⟩
    | some bytes => exact ⟨rfl, congrArg Prod.fst (poll_returned hret _)⟩
  | reply n late =>
    show (replyLink c s late _).host = _ ∧ (replyLink c s late _).loader = _
    cases s.toHost[n]?.bind fun r => parseReply r.2 with
    | none => exact ⟨rfl, rfl⟩
    | some reply =>
      refine ⟨?_, rfl⟩
      show onReply c s.host reply late = s.host
      rw [onReply, hend]
  | timeout late =>
    refine ⟨?_, rfl⟩
    show onTimeout c s.host late = s.host
    rw [onTimeout, hend]

/-! ### The fates -/

/-- The sender waits in vain, and sends the same again. -/
theorem joint_timeout (h : Joint c s)
    (htry : ∀ off attempt, s.host.stage = .data off attempt ∨ s.host.stage = .exec attempt →
      attempt + 1 < c.retries) :
    Joint c (linkStep c s (.timeout false)) ∧
      remaining c (linkStep c s (.timeout false)).host = remaining c s.host := by
  have hstage := h.stage
  have hnext : linkStep c s (.timeout false) = advance c s (onTimeout c s.host false) := rfl
  have hkept : AtStage c s.loader (onTimeout c s.host false) ∧
      remaining c (onTimeout c s.host false) = remaining c s.host := by
    cases hs : s.host.stage with
    | start =>
      have hsame : onTimeout c s.host false = s.host := by
        rw [onTimeout, hs]
        rfl
      rw [hsame]
      exact ⟨hstage, rfl⟩
    | data off attempt =>
      have hmore := htry off attempt (Or.inl hs)
      have hsame : onTimeout c s.host false = { s.host with stage := .data off (attempt + 1) } := by
        rw [onTimeout, hs]
        exact if_pos hmore
      rw [hsame]
      simp only [AtStage, remaining, hs] at hstage ⊢
      exact ⟨hstage, trivial⟩
    | exec attempt =>
      have hmore := htry 0 attempt (Or.inr hs)
      have hsame : onTimeout c s.host false = { s.host with stage := .exec (attempt + 1) } := by
        rw [onTimeout, hs]
        exact if_pos hmore
      rw [hsame]
      simp only [AtStage, remaining, hs] at hstage ⊢
      exact ⟨hstage, trivial⟩
    | ended ok =>
      have hsame : onTimeout c s.host false = s.host := by
        rw [onTimeout, hs]
      rw [hsame]
      exact ⟨hstage, rfl⟩
  rw [hnext]
  exact ⟨⟨waits_advance _, hkept.1⟩, hkept.2⟩

/-- What the loader makes of the sender's frame, in a stage in which the answer may be lost. -/
theorem poll_last (h : Joint c s) (hwindow : s.host.stage = .start → WindowOpen s.loader 1)
    (hnot : ∀ attempt, s.host.stage ≠ .exec attempt) (hrun : ∀ ok, s.host.stage ≠ .ended ok) :
    ∃ l' op r off, linkStep c s (.poll (some (s.toLoader.length - 1))) =
        { s with loader := l', toHost := s.toHost ++ [(op, r)] } ∧
      parseReply r = some ⟨opAck, off, ourMac⟩ ∧ Receiving c l' off ∧
      (s.host.stage = .start ∧ off = 0 ∨
        ∃ o attempt, s.host.stage = .data o attempt ∧ o < c.len ∧
          off = o + (c.chunk o).length) := by
  have hstage := h.stage
  cases hs : s.host.stage with
  | start =>
    have hret : s.loader.returned = none := by simpa only [AtStage, hs] using hstage
    obtain ⟨l', f, hpoll, hreceiving⟩ := @poll_start c s.loader hret (hwindow hs) c.srcMac
    have hout : outgoing c s.host =
        some (build c.srcMac Mac.broadcast opStart c.len c.crc []) := by
      rw [outgoing, hs]
    exact ⟨l', _, _, 0, linkStep_last h.waits hout hpoll,
      parseReply_nlReply f (Or.inl rfl) (by decide), hreceiving, Or.inl ⟨rfl, rfl⟩⟩
  | data o attempt =>
    simp only [AtStage, hs] at hstage
    obtain ⟨l', f, hpoll, hreceiving⟩ :=
      @poll_data c s.loader o s.host.dst c.srcMac hstage.1 hstage.2
    have hout : outgoing c s.host =
        some (build c.srcMac s.host.dst opData o (c.chunk o).length (c.chunk o)) := by
      rw [outgoing, hs]
    have hlen := length_chunk c o
    have hsize := len_lt c
    exact ⟨l', _, _, _, linkStep_last h.waits hout hpoll,
      parseReply_nlReply f (Or.inl rfl) (by omega), hreceiving,
      Or.inr ⟨o, attempt, rfl, hstage.1, rfl⟩⟩
  | exec attempt => exact absurd hs (hnot attempt)
  | ended ok => exact absurd hs (hrun ok)

/-- The head of the DATA loop, with `off` bytes in the code RAM. -/
theorem atStage_enterData (hretries : 0 < c.retries) {l : Loader} {off : Nat}
    (hoff : off ≤ c.len) (hr : Receiving c l off) (h : Host) :
    AtStage c l (enterData c h off) ∧
      remaining c (enterData c h off) = 1 + (c.len - off + 1023) / 1024 := by
  have hnz : c.retries ≠ 0 := Nat.pos_iff_ne_zero.1 hretries
  unfold enterData
  split
  · rename_i hlt
    exact ⟨⟨hlt, Or.inl hr⟩, rfl⟩
  · rename_i hnot
    have hend : off = c.len := by omega
    subst hend
    rw [enterExec, if_neg hnz, Nat.sub_self]
    exact ⟨hr, rfl⟩

/-- The answer to START or to a chunk arrives. -/
theorem joint_answered (hretries : 0 < c.retries) (h : Joint c s)
    (hwindow : s.host.stage = .start → WindowOpen s.loader 1)
    (hnot : ∀ attempt, s.host.stage ≠ .exec attempt) (hrun : ∀ ok, s.host.stage ≠ .ended ok) :
    Joint c (run (linkStep c) s (fateEvents s .answered)) ∧
      remaining c (run (linkStep c) s (fateEvents s .answered)).host + 1 =
        remaining c s.host := by
  obtain ⟨l', op, r, off, hpoll, hparse, hreceiving, hwhere⟩ := poll_last h hwindow hnot hrun
  have hrun' : run (linkStep c) s (fateEvents s .answered) =
      advance c { s with loader := l', toHost := s.toHost ++ [(op, r)] }
        (onReply c s.host ⟨opAck, off, ourMac⟩ false) := by
    show linkStep c (linkStep c s (.poll _)) (.reply _ false) = _
    rw [hpoll]
    exact linkStep_answer hparse rfl
  have hchunk : chunkLen = 1024 := rfl
  have hpos : 0 < c.len := List.length_pos_of_ne_nil c.image.property.1
  have hnext : ∃ h', onReply c s.host ⟨opAck, off, ourMac⟩ false = enterData c h' off := by
    rcases hwhere with ⟨hs, rfl⟩ | ⟨o, attempt, hs, ho, rfl⟩
    · refine ⟨{ s.host with dst := ourMac }, ?_⟩
      rw [onReply, hs]
      exact if_pos rfl
    · refine ⟨s.host, ?_⟩
      rw [onReply, hs]
      exact (if_neg (show ¬ opAck = opNak by decide)).trans (if_pos rfl)
  have hoff : off ≤ c.len ∧
      1 + (c.len - off + 1023) / 1024 + 1 = remaining c s.host := by
    rcases hwhere with ⟨hs, rfl⟩ | ⟨o, attempt, hs, ho, rfl⟩
    · simp only [remaining, hs]
      omega
    · have hlen := length_chunk c o
      simp only [remaining, hs]
      omega
  obtain ⟨h', hnext⟩ := hnext
  obtain ⟨hstage, hremaining⟩ := atStage_enterData hretries hoff.1 hreceiving h'
  rw [hrun', hnext]
  refine ⟨⟨waits_advance _, hstage⟩, ?_⟩
  show remaining c (enterData c h' off) + 1 = _
  rw [hremaining, hoff.2]

/-- The answer to EXEC arrives. -/
theorem joint_exec (h : Joint c s) {attempt : Nat} (hs : s.host.stage = .exec attempt) :
    Joint c (run (linkStep c) s (fateEvents s .answered)) ∧
      remaining c (run (linkStep c) s (fateEvents s .answered)).host = 0 := by
  have hreceiving : Receiving c s.loader c.len := by
    have hstage := h.stage
    simpa only [AtStage, hs] using hstage
  obtain ⟨l', f, hpoll, hret, himg, hcrc, hstored⟩ :=
    @poll_exec c s.loader s.host.dst c.srcMac hreceiving
  have hout : outgoing c s.host = some (build c.srcMac s.host.dst opExec 0 0 []) := by
    rw [outgoing, hs]
  have hfirst := linkStep_last h.waits hout hpoll
  have hlast : onReply c s.host ⟨opAck, c.len, ourMac⟩ false =
      { s.host with stage := .ended true } := by
    rw [onReply, hs]
    exact if_pos rfl
  have hrun' : run (linkStep c) s (fateEvents s .answered) =
      advance c { s with
        loader := l'
        toHost := s.toHost ++
          [((delivered (build c.srcMac s.host.dst opExec 0 0 [])).op, nlReply f opAck c.len)] }
        { s.host with stage := .ended true } := by
    show linkStep c (linkStep c s (.poll _)) (.reply _ false) = _
    rw [hfirst, ← hlast]
    exact linkStep_answer (parseReply_nlReply f (Or.inl rfl) (len_lt c)) rfl
  rw [hrun']
  exact ⟨⟨waits_advance _, rfl, hret, himg, hcrc, hstored⟩, rfl⟩

/-- Once both have ended, any events leave them so. -/
theorem joint_ended (h : Joint c s) {ok : Bool} (hs : s.host.stage = .ended ok) (es : List Event) :
    Joint c (run (linkStep c) s es) ∧ remaining c (run (linkStep c) s es).host = 0 := by
  have hstage := h.stage
  simp only [AtStage, hs] at hstage
  have hkept := run_invariant (linkStep c)
    (P := fun t => t.host = s.host ∧ t.loader = s.loader) (fun t e ht => by
      obtain ⟨hhost, hloader⟩ := linkStep_ended (c := c) (ht.1 ▸ hs) (ht.2 ▸ hstage.2.returned) e
      exact ⟨hhost.trans ht.1, hloader.trans ht.2⟩) es ⟨rfl, rfl⟩
  obtain ⟨hhost, hloader⟩ := hkept
  refine ⟨⟨fun bytes hout => ?_, ?_⟩, ?_⟩
  · rw [hhost, outgoing, hs] at hout
    cases hout
  · rw [hhost, hloader]
    exact h.stage
  · rw [hhost, remaining, hs]

/-- The turns without a frame that come first. -/
theorem joint_idle {e : Exchange} (h : Joint c s) (hb : Bearable c s e)
    (hrun : ∀ ok, s.host.stage ≠ .ended ok) :
    ∃ l', exchange c s e =
        run (linkStep c) { s with loader := l' } (fateEvents { s with loader := l' } e.fate) ∧
      Joint c { s with loader := l' } ∧ (s.host.stage = .start → WindowOpen l' 1) := by
  have hstage := h.stage
  have hloader : s.loader.returned = none ∧ WindowOpen s.loader (e.idle + 1) := by
    unfold Bearable bearable at hb
    cases hs : s.host.stage with
    | start =>
      simp only [AtStage, hs] at hstage hb
      refine ⟨hstage, ?_⟩
      rw [Bool.or_eq_true, decide_eq_true_iff] at hb
      exact hb.imp id fun h => (Nat.add_assoc _ _ _).symm.trans_le h
    | data off attempt =>
      simp only [AtStage, hs] at hstage
      rcases hstage.2 with hr | hr <;> exact ⟨hr.running, Or.inl hr.started⟩
    | exec attempt =>
      simp only [AtStage, hs] at hstage
      exact ⟨hstage.running, Or.inl hstage.started⟩
    | ended ok => exact absurd hs (hrun ok)
  obtain ⟨l', hidle, hidled⟩ := run_idle (c := c) hloader.1 hloader.2
  refine ⟨l', ?_, ⟨h.waits, ?_⟩, fun _ => hidled.window hloader.2⟩
  · rw [exchange, run_append, hidle]
    rfl
  · show AtStage c l' s.host
    unfold AtStage at hstage ⊢
    cases hs : s.host.stage with
    | start =>
      obtain ⟨spins, rfl, -⟩ := hidled
      exact hloader.1
    | data off attempt =>
      simp only [hs] at hstage ⊢
      exact ⟨hstage.1, hstage.2.imp hidled.receiving hidled.receiving⟩
    | exec attempt =>
      simp only [hs] at hstage ⊢
      exact hidled.receiving hstage
    | ended ok => exact absurd hs (hrun ok)

/-- The loader's answer is lost: only the loader has moved, and the sender sends the same again. -/
theorem joint_replyLost (h : Joint c s)
    (hwindow : s.host.stage = .start → WindowOpen s.loader 1)
    (hnot : ∀ attempt, s.host.stage ≠ .exec attempt) (hrun : ∀ ok, s.host.stage ≠ .ended ok)
    (htry : ∀ off attempt, s.host.stage = .data off attempt ∨ s.host.stage = .exec attempt →
      attempt + 1 < c.retries) :
    Joint c (run (linkStep c) s (fateEvents s .replyLost)) ∧
      remaining c (run (linkStep c) s (fateEvents s .replyLost)).host = remaining c s.host := by
  obtain ⟨l', op, r, off, hpoll, -, hreceiving, hwhere⟩ := poll_last h hwindow hnot hrun
  have hrun' : run (linkStep c) s (fateEvents s .replyLost) =
      linkStep c { s with loader := l', toHost := s.toHost ++ [(op, r)] } (.timeout false) := by
    show linkStep c (linkStep c s (.poll _)) (.timeout false) = _
    rw [hpoll]
  rw [hrun']
  refine joint_timeout ⟨h.waits, ?_⟩ htry
  show AtStage c l' s.host
  rcases hwhere with ⟨hs, rfl⟩ | ⟨o, attempt, hs, ho, rfl⟩
  · simp only [AtStage, hs]
    exact hreceiving.running
  · simp only [AtStage, hs]
    exact ⟨ho, Or.inr hreceiving⟩

/-- One exchange: the two stay in step, and an answer brings them forward. -/
theorem joint_exchange (hretries : 0 < c.retries) {e : Exchange} (h : Joint c s)
    (hb : Bearable c s e) :
    Joint c (exchange c s e) ∧
      remaining c (exchange c s e).host =
        remaining c s.host - if e.isAnswered = true then 1 else 0 := by
  by_cases hended : ∃ ok, s.host.stage = .ended ok
  · -- a sender that has ended answers to nothing
    obtain ⟨ok, hs⟩ := hended
    obtain ⟨hj, hr⟩ := joint_ended h hs (List.replicate e.idle (.poll none) ++ fateEvents s e.fate)
    refine ⟨hj, hr.trans ?_⟩
    rw [remaining, hs, Nat.zero_sub]
  have hrun : ∀ ok, s.host.stage ≠ .ended ok := fun ok hs => hended ⟨ok, hs⟩
  obtain ⟨l', hexchange, hj, hwindow⟩ := joint_idle h hb hrun
  unfold Bearable bearable at hb
  rw [hexchange]
  cases hfate : e.fate with
  | answered =>
    rw [Exchange.isAnswered, hfate, if_pos (by decide)]
    by_cases hexec : ∃ attempt, s.host.stage = .exec attempt
    · obtain ⟨attempt, hs⟩ := hexec
      obtain ⟨hj', hr⟩ := @joint_exec c _ hj attempt hs
      have hone : remaining c s.host = 1 := by rw [remaining, hs]
      exact ⟨hj', by rw [hone]; exact hr⟩
    · obtain ⟨hj', hr⟩ :=
        joint_answered hretries hj hwindow (fun attempt hs => hexec ⟨attempt, hs⟩) hrun
      exact ⟨hj', Nat.eq_sub_of_add_eq hr⟩
  | requestLost =>
    rw [Exchange.isAnswered, hfate, if_neg (by decide), Nat.sub_zero]
    refine joint_timeout hj fun off attempt hs => ?_
    rcases hs with hs | hs <;>
      simpa [Exchange.isAnswered, hfate, show s.host.stage = _ from hs] using hb
  | replyLost =>
    rw [Exchange.isAnswered, hfate, if_neg (by decide), Nat.sub_zero]
    -- the answer to EXEC is not lost: the loader would be gone for good
    have hnot : ∀ attempt, s.host.stage ≠ .exec attempt := by
      intro attempt hs
      simp [Exchange.isAnswered, hfate, hs] at hb
    refine joint_replyLost hj hwindow hnot hrun fun off attempt hs => ?_
    rcases hs with hs | hs
    · simpa [Exchange.isAnswered, hfate, show s.host.stage = _ from hs] using hb
    · exact absurd hs (hnot attempt)

end Link

/-! ## A whole transfer -/

section Transfer

variable {c : Sender}

theorem joint_init (c : Sender) (ram : Mem) : Joint c (Link.init c ram) :=
  ⟨waits_advance _, rfl⟩

/-- Every answer of a bearable run brings the transfer forward. -/
theorem joint_run (hretries : 0 < c.retries) :
    ∀ (es : List Exchange) {s : Link}, Joint c s → Along (exchange c) (Bearable c) s es →
      Joint c (run (exchange c) s es) ∧
        remaining c (run (exchange c) s es).host =
          remaining c s.host - es.countP Exchange.isAnswered
  | [], _, h, _ => ⟨h, rfl⟩
  | e :: es, s, h, hb => by
      obtain ⟨hnext, hr⟩ := joint_exchange hretries h hb.1
      obtain ⟨hj, hrest⟩ := joint_run hretries es hnext hb.2
      refine ⟨hj, ?_⟩
      rw [run_cons, hrest, hr, List.countP_cons]
      omega

/-- Every frame but the last is lost once, in one direction or the other. -/
def unluckyRun : List Exchange :=
  [⟨3, .requestLost⟩, ⟨0, .replyLost⟩, ⟨0, .answered⟩, ⟨1, .replyLost⟩, ⟨0, .requestLost⟩,
    ⟨0, .answered⟩, ⟨2, .requestLost⟩, ⟨0, .answered⟩]

end Transfer

end Netload
end InfernoFpga
