import InfernoFpga.Netload.Host

/-!
# Agreement — does the sender's success mean that the loader has accepted the image?

Sender and loader exchange frames over a network that may lose, duplicate, delay and reorder them
in both directions: every frame ever sent may be delivered at any time, any number of times, or
never.  A reply does not say which frame it answers, so an acknowledgement left over from the
DATA stage can end the EXEC stage.
-/

namespace InfernoFpga
namespace Netload

open Lib
open Firmware (Mac)

/-! ## Sender, loader and network -/

/-- Both parties and every frame sent so far; a reply is kept with the opcode it answers. -/
structure Link where
  host : Host
  loader : Loader
  toLoader : List (List UInt8)
  toHost : List (UInt8 × List UInt8)

inductive Event
  /-- A turn of the loader's loop, with one of the sender's frames pending or none. -/
  | poll (n : Option Nat)
  /-- A reply reaches the sender; `late` when the deadline of the START stage has passed. -/
  | reply (n : Nat) (late : Bool)
  /-- The sender has waited in vain. -/
  | timeout (late : Bool)
  deriving DecidableEq

/-- A frame as the loader's MAC stores it, padded to the minimum length. -/
def delivered (bytes : List UInt8) : Rx :=
  { slot := fun k => bytes.getD k 0, len := if bytes.length < 60 then 60 else bytes.length }

/-- The sender has moved on, and sends the frame it then waits for an answer to. -/
def advance (c : Sender) (s : Link) (h : Host) : Link :=
  { s with host := h, toLoader := s.toLoader ++ (outgoing c h).toList }

/-- A turn of the loader's loop. -/
def pollLink (s : Link) : Option (List UInt8) → Link
  | none => { s with loader := (poll s.loader none).1 }
  | some bytes =>
      let turn := poll s.loader (some (delivered bytes))
      { s with
        loader := turn.1
        toHost := s.toHost ++ turn.2.toList.map fun r => ((delivered bytes).op, r) }

/-- A frame reaches the sender; what is not a reply is passed over. -/
def replyLink (c : Sender) (s : Link) (late : Bool) : Option Reply → Link
  | none => s
  | some r => advance c s (onReply c s.host r late)

def linkStep (c : Sender) (s : Link) : Event → Link
  | .poll n => pollLink s (n.bind fun n => s.toLoader[n]?)
  | .reply n late => replyLink c s late (s.toHost[n]?.bind fun r => parseReply r.2)
  | .timeout late => advance c s (onTimeout c s.host late)

/-- The sender has sent its first START and the loader has come out of reset. -/
def Link.init (c : Sender) (ram : Mem) : Link :=
  advance c { host := Host.init, loader := Loader.boot ram, toLoader := [], toHost := [] } Host.init

/-- An acknowledgement, whatever it answers. -/
def isAck (bytes : List UInt8) : Bool := (parseReply bytes).any fun r => r.op == opAck

/-- In its EXEC stage the sender is about to take an acknowledgement of an earlier stage. -/
def stale (s : Link) : Event → Bool
  | .reply n _ =>
      match s.host.stage, s.toHost[n]? with
      | .exec _, some r => r.1 != opExec && isAck r.2
      | _, _ => false
  | _ => false

def Fresh (s : Link) (e : Event) : Prop := stale s e = false

instance (s : Link) (e : Event) : Decidable (Fresh s e) := inferInstanceAs (Decidable (_ = _))

/-- The loader has verified the sender's image and accepted EXEC. -/
def Accepted (c : Sender) (s : Link) : Prop :=
  s.loader.returned = some true ∧ s.loader.imgLen = c.len ∧ s.loader.imgCrc = c.crc

/-! ## Frames of the sender and of the loader -/

section Frames

variable {src dst : Mac} {op : UInt8} {arg0 arg1 : Nat} {payload : List UInt8}

theorem delivered_build_op : (delivered (build src dst op arg0 arg1 payload)).op = op := rfl

theorem delivered_build_arg0 :
    (delivered (build src dst op arg0 arg1 payload)).arg0 = arg0 % 2 ^ 32 :=
  Mem.rd32_of_be32 rfl

theorem delivered_build_arg1 :
    (delivered (build src dst op arg0 arg1 payload)).arg1 = arg1 % 2 ^ 32 :=
  Mem.rd32_of_be32 rfl

theorem crc_lt (c : Sender) : c.crc < 2 ^ 32 := (binasciiCrc32 c.image.val).toNat_lt

theorem len_lt (c : Sender) : c.len < 2 ^ 32 :=
  lt_of_le_of_lt c.image.property.2 (by decide)

/-- A START of the sender announces its image. -/
theorem outgoing_start {c : Sender} {h : Host} {bytes : List UInt8}
    (hout : bytes ∈ (outgoing c h).toList) (hop : (delivered bytes).op = opStart) :
    (delivered bytes).arg0 = c.len ∧ (delivered bytes).arg1 = c.crc := by
  rw [Option.mem_toList] at hout
  unfold outgoing at hout
  cases hstage : h.stage with
  | start =>
    rw [hstage, Option.some_inj] at hout
    subst hout
    rw [delivered_build_arg0, delivered_build_arg1, Nat.mod_eq_of_lt (len_lt c),
      Nat.mod_eq_of_lt (crc_lt c)]
    exact ⟨rfl, rfl⟩
  | data off attempt =>
    rw [hstage, Option.some_inj] at hout
    subst hout
    exact absurd (delivered_build_op.symm.trans hop) (by decide)
  | exec attempt =>
    rw [hstage, Option.some_inj] at hout
    subst hout
    exact absurd (delivered_build_op.symm.trans hop) (by decide)
  | ended ok =>
    rw [hstage] at hout
    cases hout

/-- The sender reads the opcode the loader has put into a reply. -/
theorem op_of_isAck {req : Rx} {nextOff : Nat} (h : isAck (nlReply req op nextOff) = true) :
    op = opAck := by
  unfold isAck parseReply at h
  simp only [] at h
  split at h
  · cases h
  split at h
  · cases h
  split at h
  · cases h
  split at h
  · cases h
  · exact of_decide_eq_true h

end Frames

/-! ## One turn of the loader -/

section Turn

variable {s : Loader} {f : Rx} {reply : List UInt8}

/-- An acknowledged EXEC has left the loop with success. -/
theorem handle_exec (hop : f.op = opExec) (hreply : (handle s f).2 = some reply)
    (hack : isAck reply = true) : (handle s f).1.returned = some true := by
  have hnak : ∀ off, reply ≠ nlReply f opNak off := by
    rintro off rfl
    exact absurd (op_of_isAck hack) (by decide)
  have hstart : f.op ≠ opStart := by rw [hop]; decide
  have hdata : ¬ (f.op = opData ∧ s.started = true) := fun h =>
    absurd (hop.symm.trans h.1) (by decide)
  unfold handle at hreply ⊢
  rw [if_neg hstart, if_neg hdata] at hreply ⊢
  by_cases hexec : f.op = opExec ∧ s.started = true
  · rw [if_pos hexec] at hreply ⊢
    split at hreply
    · exact absurd (Option.some.inj hreply).symm (hnak _)
    · rename_i hfull
      rw [if_neg hfull]
      split at hreply
      · exact absurd (Option.some.inj hreply).symm (hnak _)
      · rename_i hcrc
        rw [if_neg hcrc]
  · rw [if_neg hexec] at hreply
    cases hreply

/-- The image of a started transfer is the one the last accepted START announced. -/
theorem handle_image {len crc : Nat}
    (hstart : f.op = opStart → f.arg0 = len ∧ f.arg1 = crc)
    (himage : s.started = true ∨ s.returned = some true → s.imgLen = len ∧ s.imgCrc = crc)
    (h : (handle s f).1.started = true ∨ (handle s f).1.returned = some true) :
    (handle s f).1.imgLen = len ∧ (handle s f).1.imgCrc = crc := by
  unfold handle at h ⊢
  by_cases hs : f.op = opStart
  · rw [if_pos hs] at h ⊢
    cases haccepts : acceptsStart f with
    | true => exact hstart hs
    | false =>
      simp only [haccepts, Bool.false_eq_true, if_false] at h ⊢
      exact himage h
  · rw [if_neg hs] at h ⊢
    by_cases hd : f.op = opData ∧ s.started = true
    · rw [if_pos hd]
      have hsame := himage (Or.inl hd.2)
      cases haccepts : acceptsData s f <;> simpa [storeData, haccepts] using hsame
    · rw [if_neg hd] at h ⊢
      by_cases he : f.op = opExec ∧ s.started = true
      · rw [if_pos he]
        have hsame := himage (Or.inl he.2)
        split
        · exact hsame
        · split <;> exact hsame
      · rw [if_neg he] at h ⊢
        exact himage h

theorem spin_fields (s : Loader) : (spin s).started = s.started ∧
    (spin s).returned = s.returned ∧ (spin s).imgLen = s.imgLen ∧ (spin s).imgCrc = s.imgCrc := by
  unfold spin
  split <;> exact ⟨rfl, rfl, rfl, rfl⟩

end Turn

/-! ## The agreement -/

/-- What holds of the two parties and of every frame between them. -/
structure Agreed (c : Sender) (s : Link) : Prop where
  starts : ∀ f ∈ s.toLoader, (delivered f).op = opStart →
    (delivered f).arg0 = c.len ∧ (delivered f).arg1 = c.crc
  image : s.loader.started = true ∨ s.loader.returned = some true →
    s.loader.imgLen = c.len ∧ s.loader.imgCrc = c.crc
  answered : ∀ r ∈ s.toHost, r.1 = opExec → isAck r.2 = true → s.loader.returned = some true
  success : s.host.stage = .ended true → s.loader.returned = some true

section Agree

variable {c : Sender} {s : Link}

theorem agreed_advance {h : Host} (ha : Agreed c s)
    (hsuccess : h.stage = .ended true → s.loader.returned = some true) :
    Agreed c (advance c s h) := by
  refine ⟨fun f hf => ?_, ha.image, ha.answered, hsuccess⟩
  rcases List.mem_append.1 hf with hold | hnew
  · exact ha.starts f hold
  · exact outgoing_start hnew

/-- A loader that has left the loop stays as it is. -/
theorem poll_returned {s : Loader} {b : Bool} (h : s.returned = some b) (rx : Option Rx) :
    poll s rx = (s, none) := by
  simp [poll, h]

/-- A turn without a frame to handle leaves image and result of a running transfer alone. -/
theorem agreed_untaken {rx : Option Rx} (ha : Agreed c s) (htaken : taken s.loader rx = none) :
    Agreed c { s with loader := (poll s.loader rx).1 } := by
  obtain ⟨spins, returned, hstep, hret⟩ := step_untaken htaken
  have hkeep : s.loader.returned = some true → (poll s.loader rx).1.returned = some true := by
    intro h
    rw [poll_returned h]
    exact h
  refine ⟨ha.starts, fun h => ?_, fun r hr hop hack => hkeep (ha.answered r hr hop hack),
    fun h => hkeep (ha.success h)⟩
  change (step s.loader rx).started = true ∨ (step s.loader rx).returned = some true at h
  show (step s.loader rx).imgLen = c.len ∧ (step s.loader rx).imgCrc = c.crc
  rw [hstep] at h ⊢
  exact ha.image (h.imp id hret)

theorem untaken_reply {s : Loader} {rx : Option Rx} (h : taken s rx = none) :
    (poll s rx).2 = none := by
  unfold poll
  cases hret : s.returned with
  | some b => rfl
  | none =>
    cases hexp : expired s with
    | true => rfl
    | false =>
      have hopen : rx.filter Rx.isNetload = none := by simpa [taken, hret, hexp] using h
      cases rx with
      | none => rfl
      | some g =>
        have hnl : g.isNetload = false := by simpa [Option.filter] using hopen
        simp [hnl]

theorem agreed_poll {bytes : List UInt8} (ha : Agreed c s) (hmem : bytes ∈ s.toLoader) :
    Agreed c { s with
      loader := (poll s.loader (some (delivered bytes))).1
      toHost := s.toHost ++ (poll s.loader (some (delivered bytes))).2.toList.map
        fun r => ((delivered bytes).op, r) } := by
  cases htaken : taken s.loader (some (delivered bytes)) with
  | none =>
    rw [untaken_reply htaken]
    simpa using agreed_untaken ha htaken
  | some f =>
    have hf : f = delivered bytes ∧ s.loader.returned = none := by
      unfold taken at htaken
      split at htaken
      · rename_i hopen
        simp only [Bool.and_eq_true, Option.isNone_iff_eq_none] at hopen
        exact ⟨(Option.some.inj (Option.filter_eq_some_iff.1 htaken).1).symm, hopen.1⟩
      · cases htaken
    obtain ⟨rfl, hret⟩ := hf
    obtain ⟨hstarted, hreturned, hlen, hcrc⟩ := spin_fields s.loader
    rw [poll_taken htaken]
    refine ⟨ha.starts, fun h => ?_, fun r hr hop hack => ?_, fun h => ?_⟩
    · refine handle_image (ha.starts bytes hmem) (fun h' => ?_) h
      rw [hlen, hcrc]
      exact ha.image (by rwa [hstarted, hreturned] at h')
    · rcases List.mem_append.1 hr with hold | hnew
      · exact absurd (hret.symm.trans (ha.answered r hold hop hack)) (by decide)
      · obtain ⟨reply, hreply, rfl⟩ := List.mem_map.1 hnew
        exact handle_exec hop (Option.mem_toList.1 hreply) hack
    · exact absurd (hret.symm.trans (ha.success h)) (by decide)

/-- Ending with success takes an acknowledgement in the EXEC stage. -/
theorem succeeded_of_onReply {h : Host} {r : Reply} {late : Bool}
    (hend : (onReply c h r late).stage = .ended true) :
    h.stage = .ended true ∨ ((∃ attempt, h.stage = .exec attempt) ∧ r.op = opAck) := by
  have hfail : (failPass h).stage ≠ .ended true := by
    unfold failPass
    split <;> simp
  have hrepeat : h.stage = .start → (repeatStart h late).stage ≠ .ended true := by
    intro hstage
    unfold repeatStart
    split
    · split
      · simp
      · exact hfail
    · simp [hstage]
  have hdata : ∀ h' : Host, (failPass h').stage ≠ .ended true := fun h' => by
    unfold failPass
    split <;> simp
  have henter : ∀ (h' : Host) (off : Nat), (enterData c h' off).stage ≠ .ended true := by
    intro h' off
    unfold enterData enterExec
    split
    · split
      · exact hdata h'
      · simp
    · split
      · exact hdata h'
      · simp
  unfold onReply at hend
  cases hstage : h.stage with
  | start =>
    simp only [hstage] at hend
    split at hend
    · exact absurd hend (henter _ _)
    · exact absurd hend (hrepeat hstage)
  | data off attempt =>
    simp only [hstage] at hend
    split at hend
    · exact absurd hend hfail
    split at hend
    · exact absurd hend (henter _ _)
    split at hend
    · exact absurd hend (henter _ _)
    · unfold retry at hend
      split at hend
      · simp at hend
      · exact absurd hend hfail
  | exec attempt =>
    simp only [hstage] at hend
    split at hend
    · exact Or.inr ⟨⟨attempt, rfl⟩, by assumption⟩
    · exact absurd hend hfail
  | ended ok =>
    simp only [hstage] at hend
    exact Or.inl (hstage ▸ hend)

theorem agreed_step {e : Event} (ha : Agreed c s) (hfresh : Fresh s e) :
    Agreed c (linkStep c s e) := by
  cases e with
  | poll n =>
    show Agreed c (pollLink s (n.bind fun n => s.toLoader[n]?))
    cases hbytes : n.bind fun n => s.toLoader[n]? with
    | none => exact agreed_untaken ha (by simp [taken])
    | some bytes =>
      obtain ⟨k, -, hk⟩ := Option.bind_eq_some_iff.1 hbytes
      exact agreed_poll ha (List.mem_of_getElem? hk)
  | reply n late =>
    show Agreed c (replyLink c s late (s.toHost[n]?.bind fun r => parseReply r.2))
    cases hreply : s.toHost[n]?.bind fun r => parseReply r.2 with
    | none => exact ha
    | some reply =>
      obtain ⟨r, hr, hparse⟩ := Option.bind_eq_some_iff.1 hreply
      refine agreed_advance ha fun hend => ?_
      rcases succeeded_of_onReply hend with hdone | ⟨⟨attempt, hstage⟩, hop⟩
      · exact ha.success hdone
      · -- the acknowledgement that ends the EXEC stage answers an EXEC
        have hack : isAck r.2 = true := by simp [isAck, hparse, hop]
        have hexec : r.1 = opExec := by
          simpa [Fresh, stale, hstage, hr, hack] using hfresh
        exact ha.answered r (List.mem_of_getElem? hr) hexec hack
  | timeout late =>
    refine agreed_advance ha fun hend => ha.success ?_
    unfold onTimeout at hend
    cases hstage : s.host.stage with
    | ended ok =>
      simp only [hstage] at hend
      exact hstage ▸ hend
    | _ =>
      simp only [hstage, repeatStart, retry, failPass] at hend
      grind

theorem agreed_init (c : Sender) (ram : Mem) : Agreed c (Link.init c ram) := by
  refine agreed_advance ⟨?_, ?_, ?_, ?_⟩ ?_
  · intro f hf
    cases hf
  · intro h
    simp [Loader.boot] at h
  · intro r hr
    cases hr
  · intro h
    simp [Host.init] at h
  · intro h
    simp [Host.init] at h

end Agree

/-- As long as no acknowledgement of an earlier stage reaches the sender in its EXEC stage, the
sender reports success only once the loader has verified an image of its length and CRC and
accepted EXEC, whatever the network does. -/
theorem netload_agreement (c : Sender) (ram : Mem) (es : List Event)
    (h : Along (linkStep c) Fresh (Link.init c ram) es) :
    (run (linkStep c) (Link.init c ram) es).host.stage = .ended true →
      Accepted c (run (linkStep c) (Link.init c ram) es) := by
  have ha : Agreed c (run (linkStep c) (Link.init c ram) es) :=
    h.invariant (P := Agreed c) (fun _ _ hfresh ha => agreed_step ha hfresh) (agreed_init c ram)
  intro hend
  have hret := ha.success hend
  exact ⟨hret, ha.image (Or.inr hret)⟩

/-- A sender with an image of one byte. -/
def oneByte : Sender :=
  { image := ⟨[0x13], by decide⟩, srcMac := ⟨2, 0, 0, 0, 0, 1⟩, retries := 40 }

/-- START, DATA and EXEC, each answered at once. -/
def promptRun : List Event :=
  [.poll (some 0), .reply 0 false, .poll (some 1), .reply 1 false, .poll (some 2), .reply 2 false]

theorem netload_agreement_prompt :
    (run (linkStep oneByte) (Link.init oneByte fun _ => 0) promptRun).host.stage = .ended true ∧
      Accepted oneByte (run (linkStep oneByte) (Link.init oneByte fun _ => 0) promptRun) := by
  have hend : (run (linkStep oneByte) (Link.init oneByte fun _ => 0) promptRun).host.stage =
      .ended true := by decide +kernel
  exact ⟨hend, netload_agreement oneByte (fun _ => 0) promptRun (by decide +kernel) hend⟩

/-- DATA is sent twice, because its first acknowledgement comes late. -/
def lateRun : List Event :=
  [.poll (some 0), .reply 0 false, .poll (some 1), .timeout false, .poll (some 2), .reply 1 false,
    .reply 2 false]

/-- The second acknowledgement of DATA ends the EXEC stage: the sender reports success and the
loader has not seen an EXEC. -/
theorem netload_agreement_late :
    (run (linkStep oneByte) (Link.init oneByte fun _ => 0) lateRun).host.stage = .ended true ∧
      (run (linkStep oneByte) (Link.init oneByte fun _ => 0) lateRun).loader.returned = none ∧
      ¬ Accepted oneByte (run (linkStep oneByte) (Link.init oneByte fun _ => 0) lateRun) := by
  obtain ⟨hend, hret⟩ :
      (run (linkStep oneByte) (Link.init oneByte fun _ => 0) lateRun).host.stage = .ended true ∧
      (run (linkStep oneByte) (Link.init oneByte fun _ => 0) lateRun).loader.returned = none := by
    decide +kernel
  exact ⟨hend, hret, fun h => absurd (hret.symm.trans h.1) (by decide)⟩

end Netload
end InfernoFpga
