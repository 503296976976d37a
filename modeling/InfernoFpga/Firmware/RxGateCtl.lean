import InfernoFpga.Lib.Wrap
import InfernoFpga.Mac.RxGate

/-!
# RxGateCtl — who arms the gate, and who takes it back

The gate is armed at boot, from the console, and over the network.  What the network arms it takes
back by itself, unless it is told to keep it: one flag and one deadline, shared by all who arm.
The flag does not say whether the gate was armed before.
-/

namespace InfernoFpga
namespace Firmware

open Lib
open InfernoFpga.Mac (GateCsr Octet)

/-! ## `rx_gate.c` -/

/-- `RXGATE_REVERT_MS`. -/
abbrev rxgateRevertMs : BitVec 32 := 30000

/-- The static variables, and the CSRs that they shadow. -/
structure GateControl where
  csr : GateCsr
  enabled : Bool
  pending : Bool
  revertAtMs : BitVec 32

def GateControl.powerOn : GateControl := ⟨GateCsr.reset 2, false, false, 0⟩

local instance octet_neZero : NeZero 6 := ⟨by decide⟩

/-- `write_local_mac`. -/
def writeLocalMac (g : GateControl) (mac : Fin 6 → Octet) : GateControl :=
  { g with
    csr := { g.csr with
      localMacHi := mac 0 ++ mac 1
      localMacLo := mac 2 ++ mac 3 ++ mac 4 ++ mac 5 } }

/-- `rx_gate_enable_write`. -/
def rxGateEnableWrite (g : GateControl) (on : Bool) : GateControl :=
  { g with csr := { g.csr with enable := on } }

def rxGateInit (g : GateControl) (mac : Fin 6 → Octet) : GateControl :=
  { rxGateEnableWrite (writeLocalMac g mac) true with enabled := true, pending := false }

def rxGateSet (g : GateControl) (on : Bool) (revertMs now : BitVec 32) : GateControl :=
  let g := { rxGateEnableWrite g on with enabled := on }
  if on ∧ revertMs ≠ 0 then { g with pending := true, revertAtMs := now + revertMs }
  else { g with pending := false }

def rxGateCommit (g : GateControl) : GateControl :=
  if g.pending then { g with pending := false } else g

def rxGatePoll (g : GateControl) (now : BitVec 32) : GateControl :=
  if !g.pending then g
  else if 0 ≤ (now - g.revertAtMs).toInt then
    { rxGateEnableWrite g false with pending := false, enabled := false }
  else g

/-! ## Who calls it -/

/-- What a request to the statistics port asks of the gate. -/
inductive Opcode
  | arm
  | disarm
  | commit
  | status
  deriving DecidableEq

/-- The second byte of the request: `'1'`, `'0'`, `'c'`, or anything else. -/
def opcode (req : List Octet) : Opcode :=
  if 2 ≤ req.length then
    if req.getD 1 0 = 0x31 then .arm
    else if req.getD 1 0 = 0x30 then .disarm
    else if req.getD 1 0 = 0x63 then .commit
    else .status
  else .status

/-- `rxgate_rx`, but for its reply. -/
def rxgateRx (g : GateControl) (req : List Octet) (now : BitVec 32) : GateControl :=
  match opcode req with
  | .arm => rxGateSet g true rxgateRevertMs now
  | .disarm => rxGateSet g false 0 now
  | .commit => rxGateCommit g
  | .status => g

/-- The console's `'x'`. -/
def consoleX (g : GateControl) (now : BitVec 32) : GateControl := rxGateSet g (!g.enabled) 0 now

inductive Action
  | init (mac : Fin 6 → Octet)
  | request (req : List Octet)
  | console
  | poll

/-- An action, and the uptime in milliseconds, of which `gptp_uptime_ms` is the low 32 bits. -/
structure ControlEvent where
  time : Nat
  action : Action

def ControlEvent.now (e : ControlEvent) : BitVec 32 := wrapped 32 e.time

def controlStep (g : GateControl) (e : ControlEvent) : GateControl :=
  match e.action with
  | .init mac => rxGateInit g mac
  | .request req => rxgateRx g req e.now
  | .console => consoleX g e.now
  | .poll => rxGatePoll g e.now

/-! ## What the network has on loan -/

/-- An arm over the network that is neither committed, nor undone, nor overruled: when it is due,
and whether it found the gate armed. -/
structure Loan where
  deadline : Nat
  found : Bool

structure Ledger where
  loan : Option Loan
  time : Nat
  lastPoll : Nat

def Ledger.start (time : Nat) : Ledger := ⟨none, time, time⟩

/-- A second arm renews a loan.  A poll at or after the deadline ends it. -/
def nextLoan (g : GateControl) (e : ControlEvent) (loan : Option Loan) : Option Loan :=
  match e.action with
  | .init _ => none
  | .request req =>
      match opcode req with
      | .arm => some ⟨e.time + rxgateRevertMs.toNat, (loan.map Loan.found).getD g.enabled⟩
      | .disarm => none
      | .commit => none
      | .status => loan
  | .console => none
  | .poll => loan.filter fun l => decide (e.time < l.deadline)

def nextLedger (g : GateControl) (e : ControlEvent) (l : Ledger) : Ledger where
  loan := nextLoan g e l.loan
  time := e.time
  lastPoll :=
    match e.action with
    | .poll => e.time
    | _ => l.lastPoll

def controlled : GateControl × Ledger → ControlEvent → GateControl × Ledger :=
  watch controlStep nextLedger

/-- The uptime does not go back, and the polls are less than 2^31 ms apart. -/
def Timely (p : GateControl × Ledger) (e : ControlEvent) : Prop :=
  p.2.time ≤ e.time ∧
    match e.action with
    | .poll => e.time < p.2.lastPoll + 2 ^ 31
    | _ => True

/-- A poll undoes a loan that is due, to what the loan found, and nothing else. -/
def PollRight (p : GateControl × Ledger) (e : ControlEvent) : Prop :=
  match e.action with
  | .poll => (controlStep p.1 e).enabled =
      match p.2.loan with
      | some l => if l.deadline ≤ e.time then l.found else p.1.enabled
      | none => p.1.enabled
  | _ => True

/-- No poll finds a loan due that found the gate armed. -/
def Undoable (p : GateControl × Ledger) (e : ControlEvent) : Prop :=
  match e.action with
  | .poll => ∀ l ∈ p.2.loan, l.deadline ≤ e.time → l.found = false
  | _ => True

/-- The network does not arm what is armed for good. -/
def Disarmed (p : GateControl × Ledger) (e : ControlEvent) : Prop :=
  match e.action with
  | .request req => opcode req = .arm → p.1.enabled = true → p.1.pending = true
  | _ => True

instance (p : GateControl × Ledger) : ∀ e, Decidable (Timely p e)
  | ⟨_, .init _⟩ => inferInstanceAs (Decidable (_ ∧ True))
  | ⟨_, .request _⟩ => inferInstanceAs (Decidable (_ ∧ True))
  | ⟨_, .console⟩ => inferInstanceAs (Decidable (_ ∧ True))
  | ⟨_, .poll⟩ => inferInstanceAs (Decidable (_ ∧ _ < _))

instance (p : GateControl × Ledger) : ∀ e, Decidable (Disarmed p e)
  | ⟨_, .init _⟩ => inferInstanceAs (Decidable True)
  | ⟨_, .request req⟩ =>
      inferInstanceAs (Decidable (opcode req = .arm → p.1.enabled = true → p.1.pending = true))
  | ⟨_, .console⟩ => inferInstanceAs (Decidable True)
  | ⟨_, .poll⟩ => inferInstanceAs (Decidable True)

instance (p : GateControl × Ledger) : ∀ e, Decidable (PollRight p e)
  | ⟨_, .init _⟩ => inferInstanceAs (Decidable True)
  | ⟨_, .request _⟩ => inferInstanceAs (Decidable True)
  | ⟨_, .console⟩ => inferInstanceAs (Decidable True)
  | ⟨_, .poll⟩ => inferInstanceAs (Decidable (_ = _))

/-! ## One action -/

section Step

variable {g : GateControl} {p : GateControl × Ledger} {e : ControlEvent}

theorem rxGateSet_enabled (g : GateControl) (on : Bool) (revertMs now : BitVec 32) :
    (rxGateSet g on revertMs now).enabled = on ∧
      (rxGateSet g on revertMs now).csr.enable = on := by
  unfold rxGateSet
  dsimp only
  split <;> exact ⟨rfl, rfl⟩

theorem rxGateSet_pending (g : GateControl) (on : Bool) (now : BitVec 32) :
    (rxGateSet g on 0 now).pending = false := by
  have hzero : ¬ (on = true ∧ (0 : BitVec 32) ≠ 0) := fun h => h.2 rfl
  rw [rxGateSet]
  dsimp only
  rw [if_neg hzero]

theorem rxGateSet_revert (g : GateControl) (now : BitVec 32) :
    (rxGateSet g true rxgateRevertMs now).pending = true ∧
      (rxGateSet g true rxgateRevertMs now).revertAtMs = now + rxgateRevertMs := by
  have hset : true = true ∧ rxgateRevertMs ≠ 0 := by decide
  rw [rxGateSet]
  dsimp only
  rw [if_pos hset]
  exact ⟨rfl, rfl⟩

theorem rxGateCommit_eq (g : GateControl) : rxGateCommit g = { g with pending := false } := by
  unfold rxGateCommit
  split
  · rfl
  · rename_i hoff
    rw [Bool.not_eq_true] at hoff
    rw [← hoff]

/-- Flag and enable bit are only ever written together. -/
theorem flag_step (h : g.enabled = g.csr.enable) (e : ControlEvent) :
    (controlStep g e).enabled = (controlStep g e).csr.enable := by
  rcases e with ⟨time, action⟩
  cases action with
  | init mac => rfl
  | request req =>
      show (rxgateRx g req _).enabled = (rxgateRx g req _).csr.enable
      unfold rxgateRx
      split
      · exact (rxGateSet_enabled ..).1.trans (rxGateSet_enabled ..).2.symm
      · exact (rxGateSet_enabled ..).1.trans (rxGateSet_enabled ..).2.symm
      · rw [rxGateCommit_eq]
        exact h
      · exact h
  | console => exact (rxGateSet_enabled ..).1.trans (rxGateSet_enabled ..).2.symm
  | poll =>
      show (rxGatePoll g _).enabled = (rxGatePoll g _).csr.enable
      unfold rxGatePoll
      split
      · exact h
      · split
        · rfl
        · exact h

/-- The pending flag marks a loan; a loan is armed, and its deadline is ahead of the last poll and
not far ahead of the time. -/
structure Tracked (p : GateControl × Ledger) : Prop where
  order : p.2.lastPoll ≤ p.2.time
  pending : p.1.pending = p.2.loan.isSome
  armed : ∀ l ∈ p.2.loan, p.1.enabled = true
  deadline : ∀ l ∈ p.2.loan, p.1.revertAtMs = wrapped 32 l.deadline ∧
    p.2.lastPoll < l.deadline ∧ l.deadline ≤ p.2.time + 30000

/-- With no loan there is nothing to track. -/
theorem Tracked.of_none (horder : p.2.lastPoll ≤ p.2.time) (hpending : p.1.pending = false)
    (hloan : p.2.loan = none) : Tracked p where
  order := horder
  pending := by rw [hpending, hloan]; rfl
  armed := by simp [hloan]
  deadline := by simp [hloan]

/-- At a timely poll the comparison of the registers is the comparison of the times. -/
theorem Tracked.due_iff (h : Tracked p) {time : Nat} (ht : Timely p ⟨time, .poll⟩) {l : Loan}
    (hl : l ∈ p.2.loan) :
    0 ≤ (wrapped 32 time - p.1.revertAtMs).toInt ↔ l.deadline ≤ time := by
  rcases ht with ⟨hback, hgap⟩
  rcases h.deadline l hl with ⟨hreg, hahead, hnear⟩
  have hback' : p.2.time ≤ time := hback
  have hgap' : time < p.2.lastPoll + 2 ^ 31 := hgap
  rw [hreg]
  refine (reached_iff (w := 31) ?_ ?_).trans Int.ofNat_le
  · omega
  · omega

theorem poll_none (h : Tracked p) (hloan : p.2.loan = none) (now : BitVec 32) :
    rxGatePoll p.1 now = p.1 := by
  have hoff : (!p.1.pending) = true := by
    rw [h.pending, hloan]
    rfl
  rw [rxGatePoll, if_pos hoff]

theorem poll_some (h : Tracked p) {time : Nat} (ht : Timely p ⟨time, .poll⟩) {l : Loan}
    (hloan : p.2.loan = some l) : rxGatePoll p.1 (wrapped 32 time) =
      if l.deadline ≤ time then
        { rxGateEnableWrite p.1 false with pending := false, enabled := false }
      else p.1 := by
  have hon : ¬ (!p.1.pending) = true := by
    rw [h.pending, hloan]
    exact Bool.false_ne_true
  have hdue := h.due_iff ht (Option.mem_def.2 hloan)
  rw [rxGatePoll, if_neg hon]
  by_cases hpast : l.deadline ≤ time
  · rw [if_pos (hdue.2 hpast), if_pos hpast]
  · rw [if_neg fun hnow => hpast (hdue.1 hnow), if_neg hpast]

theorem tracked_poll (h : Tracked p) {time : Nat} (ht : Timely p ⟨time, .poll⟩) :
    Tracked (controlled p ⟨time, .poll⟩) := by
  have hback : p.2.time ≤ time := ht.1
  cases hloan : p.2.loan with
  | none =>
      refine Tracked.of_none le_rfl ?_ ?_
      · show (rxGatePoll p.1 _).pending = false
        rw [poll_none h hloan, h.pending, hloan]
        rfl
      · show Option.filter _ p.2.loan = none
        rw [hloan]
        rfl
  | some l =>
      have hpoll : (controlled p ⟨time, .poll⟩).1 = _ := poll_some h ht hloan
      have hnext : (controlled p ⟨time, .poll⟩).2.loan =
          if decide (time < l.deadline) then some l else none := by
        show Option.filter _ p.2.loan = _
        rw [hloan]
        rfl
      by_cases hpast : l.deadline ≤ time
      · rw [if_pos hpast] at hpoll
        rw [if_neg (by simpa using hpast)] at hnext
        exact Tracked.of_none le_rfl (by rw [hpoll]) hnext
      · have hahead : time < l.deadline := Nat.lt_of_not_le hpast
        rw [if_neg hpast] at hpoll
        rw [if_pos (decide_eq_true hahead)] at hnext
        have hold := h.deadline l (Option.mem_def.2 hloan)
        refine ⟨le_rfl, ?_, fun l' hl' => ?_, fun l' hl' => ?_⟩
        · rw [hpoll, hnext, h.pending, hloan]
        · rw [hpoll]
          exact h.armed l (Option.mem_def.2 hloan)
        · rw [hnext, Option.mem_some_iff] at hl'
          rw [hpoll, ← hl']
          exact ⟨hold.1, hahead, hold.2.2.trans (Nat.add_le_add_right hback _)⟩

theorem tracked_request (h : Tracked p) {time : Nat} {req : List Octet}
    (hback : p.2.time ≤ time) : Tracked (controlled p ⟨time, .request req⟩) := by
  have horder : p.2.lastPoll ≤ time := h.order.trans hback
  have hstep : (controlled p ⟨time, .request req⟩).1 = rxgateRx p.1 req (wrapped 32 time) := rfl
  cases hop : opcode req with
  | arm =>
      have hnow : (controlled p ⟨time, .request req⟩).1 =
          rxGateSet p.1 true rxgateRevertMs (wrapped 32 time) := by
        rw [hstep, rxgateRx, hop]
      have hloan : (controlled p ⟨time, .request req⟩).2.loan =
          some ⟨time + 30000, (p.2.loan.map Loan.found).getD p.1.enabled⟩ := by
        show nextLoan p.1 ⟨time, .request req⟩ p.2.loan = _
        rw [nextLoan]
        dsimp only
        rw [hop]
        rfl
      refine ⟨horder, ?_, fun l _ => ?_, fun l hl => ?_⟩
      · rw [hnow, hloan]
        exact (rxGateSet_revert p.1 _).1
      · rw [hnow]
        exact (rxGateSet_enabled ..).1
      · rw [hloan, Option.mem_some_iff] at hl
        rw [← hl, hnow, (rxGateSet_revert p.1 _).2]
        refine ⟨?_, horder.trans_lt (Nat.lt_add_of_pos_right (by decide)), le_rfl⟩
        -- the deadline is computed in 32 bits, as the uptime is
        show wrapped 32 time + wrapped 32 30000 = wrapped 32 ((time + 30000 : Nat) : Int)
        rw [← wrapped_add]
        rfl
  | disarm =>
      refine Tracked.of_none horder ?_ ?_
      · rw [hstep, rxgateRx, hop]
        exact rxGateSet_pending ..
      · show nextLoan p.1 ⟨time, .request req⟩ p.2.loan = none
        rw [nextLoan]
        dsimp only
        rw [hop]
  | commit =>
      refine Tracked.of_none horder ?_ ?_
      · rw [hstep, rxgateRx, hop, rxGateCommit_eq]
      · show nextLoan p.1 ⟨time, .request req⟩ p.2.loan = none
        rw [nextLoan]
        dsimp only
        rw [hop]
  | status =>
      have hnow : (controlled p ⟨time, .request req⟩).1 = p.1 := by
        rw [hstep, rxgateRx, hop]
      have hloan : (controlled p ⟨time, .request req⟩).2.loan = p.2.loan := by
        show nextLoan p.1 ⟨time, .request req⟩ p.2.loan = p.2.loan
        rw [nextLoan]
        dsimp only
        rw [hop]
      refine ⟨horder, ?_, fun l hl => ?_, fun l hl => ?_⟩
      · rw [hnow, hloan]
        exact h.pending
      · rw [hnow]
        exact h.armed l (hloan ▸ hl)
      · rcases h.deadline l (hloan ▸ hl) with ⟨hreg, hahead, hnear⟩
        rw [hnow]
        exact ⟨hreg, hahead, hnear.trans (Nat.add_le_add_right hback _)⟩

theorem tracked_step (h : Tracked p) (ht : Timely p e) : Tracked (controlled p e) := by
  rcases e with ⟨time, action⟩
  have horder : p.2.lastPoll ≤ time := h.order.trans ht.1
  cases action with
  | init mac => exact Tracked.of_none horder rfl rfl
  | request req => exact tracked_request h ht.1
  | console => exact Tracked.of_none horder (rxGateSet_pending ..) rfl
  | poll => exact tracked_poll h ht

/-- A poll does right exactly if it does not take back what was armed before. -/
theorem pollRight_iff (h : Tracked p) (ht : Timely p e) : PollRight p e ↔ Undoable p e := by
  rcases e with ⟨time, action⟩
  cases action with
  | init mac => exact Iff.rfl
  | request req => exact Iff.rfl
  | console => exact Iff.rfl
  | poll =>
      show (rxGatePoll p.1 (wrapped 32 time)).enabled = _ ↔ ∀ l ∈ p.2.loan, l.deadline ≤ time → _
      cases hloan : p.2.loan with
      | none =>
          rw [poll_none h hloan]
          exact iff_of_true rfl fun l hl => absurd hl (by simp)
      | some l =>
          rw [poll_some h ht hloan]
          dsimp only
          by_cases hpast : l.deadline ≤ time
          · rw [if_pos hpast, if_pos hpast]
            constructor
            · intro hfound l' hl' _
              rw [← Option.mem_some_iff.1 hl']
              exact hfound.symm
            · intro hall
              exact (hall l rfl hpast).symm
          · rw [if_neg hpast, if_neg hpast]
            refine iff_of_true rfl fun l' hl' hpast' => absurd ?_ hpast
            rw [Option.mem_some_iff.1 hl']
            exact hpast'

/-- While the network only arms what is disarmed, or on loan already, every loan found it so. -/
def Borrowed (p : GateControl × Ledger) : Prop := ∀ l ∈ p.2.loan, l.found = false

theorem borrowed_step (h : Tracked p) (hb : Borrowed p) (hguard : Disarmed p e) :
    Borrowed (controlled p e) := by
  rcases e with ⟨time, action⟩
  cases action with
  | init mac =>
      intro l hl
      cases hl
  | request req =>
      intro l hl
      have hl' : l ∈ nextLoan p.1 ⟨time, .request req⟩ p.2.loan := hl
      rw [nextLoan] at hl'
      dsimp only at hl'
      cases hop : opcode req with
      | arm =>
          rw [hop, Option.mem_some_iff] at hl'
          rw [← hl']
          cases hloan : p.2.loan with
          | none =>
              -- nothing on loan: the gate is disarmed, or the guard is broken
              show p.1.enabled = false
              by_contra hon
              have hpending := hguard hop (Bool.not_eq_false _ ▸ hon)
              rw [h.pending, hloan] at hpending
              cases hpending
          | some old => exact hb old (Option.mem_def.2 hloan)
      | disarm =>
          rw [hop] at hl'
          cases hl'
      | commit =>
          rw [hop] at hl'
          cases hl'
      | status =>
          rw [hop] at hl'
          exact hb l hl'
  | console =>
      intro l hl
      cases hl
  | poll =>
      intro l hl
      exact hb l (Option.mem_filter_iff.1 hl).1

end Step

/-! ## Every run -/

/-- From power-on the flag is the enable bit, whatever happens.  While the uptime runs on and the
polls come in time, every poll is right exactly if none finds a loan due that found the gate
armed; in particular if the network never arms what is armed for good. -/
theorem rx_gate_provisional (start : Nat) (es : List ControlEvent) :
    (run controlStep GateControl.powerOn es).enabled =
        (run controlStep GateControl.powerOn es).csr.enable ∧
      (Along controlled Timely (GateControl.powerOn, Ledger.start start) es →
        (Along controlled PollRight (GateControl.powerOn, Ledger.start start) es ↔
          Along controlled Undoable (GateControl.powerOn, Ledger.start start) es) ∧
        (Along controlled Disarmed (GateControl.powerOn, Ledger.start start) es →
          Along controlled PollRight (GateControl.powerOn, Ledger.start start) es)) := by
  have hstart : Tracked (GateControl.powerOn, Ledger.start start) :=
    Tracked.of_none le_rfl rfl rfl
  refine ⟨?_, fun htimely => ?_⟩
  · exact run_invariant (P := fun g : GateControl => g.enabled = g.csr.enable) controlStep
      (fun g e h => flag_step h e) es rfl
  have htracked := htimely.strengthen (P := Tracked) (fun p e ht h => tracked_step h ht) hstart
  have hexact := htracked.congr fun p e h => pollRight_iff h.2 h.1
  refine ⟨hexact, fun hguard => hexact.2 ?_⟩
  have hborrowed := (htracked.and hguard).strengthen (P := Borrowed)
    (fun p e h hb => borrowed_step h.1.2 hb h.2) (fun l hl => by cases hl)
  refine hborrowed.mono fun p e h => ?_
  rcases e with ⟨time, action⟩
  cases action with
  | init mac => trivial
  | request req => trivial
  | console => trivial
  | poll => exact fun l hl _ => h.2 l hl

/-- The console disarms, the network arms, and the poll at the deadline disarms again. -/
def lentRun : List ControlEvent :=
  [⟨0, .init fun _ => 2⟩, ⟨10, .console⟩, ⟨1000, .request [0x67, 0x31]⟩, ⟨30999, .poll⟩,
    ⟨31000, .poll⟩]

theorem rx_gate_provisional_lent :
    (run controlled (GateControl.powerOn, Ledger.start 0) lentRun).1.enabled = false ∧
      Along controlled PollRight (GateControl.powerOn, Ledger.start 0) lentRun :=
  ⟨by decide, ((rx_gate_provisional 0 lentRun).2 (by decide)).2 (by decide)⟩

/-- The gate is armed at boot; an arm over the network leaves it disarmed half a minute later. -/
theorem armed_gate_reverted :
    Along controlled Timely (GateControl.powerOn, Ledger.start 0)
        [⟨0, .init fun _ => 2⟩, ⟨1000, .request [0x67, 0x31]⟩, ⟨31000, .poll⟩] ∧
      ¬ Along controlled PollRight (GateControl.powerOn, Ledger.start 0)
        [⟨0, .init fun _ => 2⟩, ⟨1000, .request [0x67, 0x31]⟩, ⟨31000, .poll⟩] ∧
      (run controlStep GateControl.powerOn [⟨0, .init fun _ => 2⟩]).enabled = true ∧
      (run controlStep GateControl.powerOn
        [⟨0, .init fun _ => 2⟩, ⟨1000, .request [0x67, 0x31]⟩, ⟨31000, .poll⟩]).enabled =
          false := by
  decide

end Firmware
end InfernoFpga
