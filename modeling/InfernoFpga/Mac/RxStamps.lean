import InfernoFpga.Lib.Run
import Mathlib.Data.List.Range
import Mathlib.Data.List.Forall2
import Mathlib.Data.List.Perm.Subperm

/-!
# RxStamps — the timestamp ring beside the receive slots

The gateware pushes a timestamp into `rx_ts_fifo` for every frame that the SRAM writer commits to
a slot, and `dispatch_rx` pops one for every slot it processes.  Two queues that are popped in
lockstep stay aligned only if they start aligned; `dispatch_rx` trims the ring to two entries to
make that so.

Frames are numbered in the order of their commits, and a timestamp goes by the number of the frame
it was captured for.
-/

namespace InfernoFpga
namespace Mac

open Lib

/-! ## The two queues -/

/-- Entries of `rx_ts_fifo`. -/
abbrev rxTsDepth : Nat := 8

/-- Slots of the SRAM writer. -/
abbrev nrxslots : Nat := 2

/-- `drain_budget` of a call. -/
abbrev drainBudget : Nat := 64

/-- Where the firmware is.  `boot` is everything before the first `dispatch_rx`. -/
inductive RxPc
  | boot
  | enter
  | drop (lvl : Nat)
  | test (budget : Nat)
  | look (budget : Nat)
  | handle (budget : Nat)
  deriving DecidableEq

/-- Both queues oldest first; `popped` is the register behind the ring. -/
structure RxQueues where
  ring : List Nat
  popped : Option Nat
  slots : List Nat
  commits : Nat
  pc : RxPc
  deriving DecidableEq

def RxQueues.reset : RxQueues := ⟨[], none, [], 0, .boot⟩

namespace RxQueues

variable (s : RxQueues)

/-- The writer stores a frame.  The ring takes its timestamp if it is writable; with both slots
taken the frame is lost and nothing is pushed. -/
def commit : RxQueues :=
  if s.slots.length < nrxslots then
    { s with
      ring := if s.ring.length < rxTsDepth then s.ring ++ [s.commits] else s.ring
      slots := s.slots ++ [s.commits]
      commits := s.commits + 1 }
  else s

/-- `main_rx_ts_pop_write(1)`. -/
def pop : RxQueues :=
  match s.ring with
  | [] => s
  | t :: ring => { s with ring := ring, popped := some t }

/-- `ethmac_sram_writer_ev_pending_write`. -/
def release : RxQueues := { s with slots := s.slots.tail }

def goto (pc : RxPc) : RxQueues := { s with pc := pc }

end RxQueues

/-- A frame arrives, the loader or an init routine releases a slot without popping, or the
firmware goes on to its next access. -/
inductive RxEvent
  | arrive
  | bootRelease
  | go
  deriving DecidableEq

/-- One event.  The early drop of a frame and its handlers both pop once before they release the
slot, so the path makes no difference here. -/
def rxStep (s : RxQueues) : RxEvent → RxQueues
  | .arrive => s.commit
  | .bootRelease => if s.pc = .boot then s.release else s
  | .go =>
      match s.pc with
      | .boot => s.goto .enter
      | .enter => s.goto (.drop s.ring.length)
      | .drop lvl => if lvl > 2 then s.pop.goto (.drop (lvl - 1)) else s.goto (.test drainBudget)
      | .test budget =>
          if s.slots ≠ [] ∧ budget > 0 then s.goto (.look (budget - 1)) else s.goto .enter
      | .look budget => s.pop.goto (.handle budget)
      | .handle budget => s.release.goto (.test budget)

/-! ## The observer -/

/-- A frame that was processed, with the timestamp in the register while it was. -/
structure Dispatched where
  frame : Nat
  stamp : Option Nat
  deriving DecidableEq

/-- The frame came with its own timestamp. -/
def Dispatched.Own (d : Dispatched) : Prop := d.stamp = some d.frame

instance (d : Dispatched) : Decidable d.Own := inferInstanceAs (Decidable (_ = _))

/-- The frame whose processing ends on this event. -/
def dispatched (s : RxQueues) : RxEvent → List Dispatched
  | .go =>
      match s.pc, s.slots with
      | .handle _, f :: _ => [⟨f, s.popped⟩]
      | _, _ => []
  | _ => []

/-- The queues with the list of the frames processed. -/
def rxLogged : RxQueues × List Dispatched → RxEvent → RxQueues × List Dispatched :=
  watch rxStep fun s e log => log ++ dispatched s e

def rxStart : RxQueues × List Dispatched := (RxQueues.reset, [])

/-! ## A queue that is pushed with another one -/

/-- A queue of timestamps `q` beside the queue of the stored frames: the frames are the last ones
committed, the timestamps are in order, and there is one for every frame to come. -/
structure Lag (q slots : List Nat) (commits : Nat) : Prop where
  enough : slots.length ≤ q.length
  recent : slots.length ≤ commits
  stored : slots = List.range' (commits - slots.length) slots.length
  sorted : q.Pairwise (· < ·)
  below : ∀ t ∈ q, t < commits

namespace Lag

variable {q slots : List Nat} {c t f : Nat}

theorem push_slots (h : Lag q slots c) :
    slots ++ [c] = List.range' (c + 1 - (slots ++ [c]).length) (slots ++ [c]).length := by
  have hrecent := h.recent
  have hlen : (slots ++ [c]).length = slots.length + 1 := by simp
  have hfirst : c + 1 - (slots.length + 1) = c - slots.length := by omega
  have hlast : c - slots.length + 1 * slots.length = c := by omega
  rw [hlen, hfirst, List.range'_concat, hlast, ← h.stored]

/-- A frame is stored and its timestamp pushed. -/
theorem push (h : Lag q slots c) : Lag (q ++ [c]) (slots ++ [c]) (c + 1) := by
  refine ⟨by simpa using h.enough, by simpa using h.recent, h.push_slots, ?_, ?_⟩
  · rw [List.pairwise_append]
    refine ⟨h.sorted, List.pairwise_singleton _ _, fun t ht b hb => ?_⟩
    rw [List.mem_singleton.1 hb]
    exact h.below t ht
  · intro t ht
    rcases List.mem_append.1 ht with ht | ht
    · exact Nat.lt_succ_of_lt (h.below t ht)
    · rw [List.mem_singleton.1 ht]
      exact Nat.lt_succ_self c

/-- A frame is stored and its timestamp lost. -/
theorem lose (h : Lag q slots c) (hroom : slots.length < q.length) :
    Lag q (slots ++ [c]) (c + 1) := by
  refine ⟨?_, by simpa using h.recent, h.push_slots, h.sorted, fun t ht => ?_⟩
  · rw [List.length_append, List.length_singleton]
    omega
  · exact Nat.lt_succ_of_lt (h.below t ht)

/-- A stale timestamp is dropped. -/
theorem trim (h : Lag (t :: q) slots c) (hmore : slots.length ≤ q.length) : Lag q slots c :=
  ⟨hmore, h.recent, h.stored, h.sorted.tail, fun x hx => h.below x (List.mem_cons_of_mem t hx)⟩

theorem tail_slots (h : Lag q (f :: slots) c) :
    slots.length ≤ c ∧ slots = List.range' (c - slots.length) slots.length := by
  have hrecent := h.recent
  have hstored := h.stored
  rw [List.length_cons] at hrecent hstored
  rw [List.range'_succ] at hstored
  have htail := (List.cons.inj hstored).2
  have hfirst : c - (slots.length + 1) + 1 = c - slots.length := by omega
  rw [hfirst] at htail
  exact ⟨by omega, htail⟩

/-- A frame is released together with the timestamp that was popped for it. -/
theorem take (h : Lag (t :: q) (f :: slots) c) : Lag q slots c :=
  ⟨Nat.le_of_succ_le_succ h.enough, h.tail_slots.1, h.tail_slots.2, h.sorted.tail,
    fun x hx => h.below x (List.mem_cons_of_mem t hx)⟩

/-- A frame is released and its timestamp stays. -/
theorem forget (h : Lag q slots c) : Lag q slots.tail c := by
  cases slots with
  | nil => exact h
  | cons f slots =>
    exact ⟨Nat.le_of_succ_le h.enough, h.tail_slots.1, h.tail_slots.2, h.sorted, h.below⟩

/-- With more timestamps than frames the first timestamp is not that of the first frame: between
the two numbers there are not enough frames. -/
theorem late (h : Lag (t :: q) (f :: slots) c) (hmore : (t :: q).length ≠ (f :: slots).length) :
    t ≠ f := by
  rintro rfl
  have henough := h.enough
  have hrecent := h.recent
  have hstored := h.stored
  rw [List.length_cons, List.range'_succ] at hstored
  have hfirst : t = c - (slots.length + 1) := (List.cons.inj hstored).1
  have hsub : (t :: q) ⊆ List.range' t (slots.length + 1) := by
    intro x hx
    rw [List.mem_range'_1]
    have hlt := h.below x hx
    rcases List.mem_cons.1 hx with rfl | hx
    · simp only [List.length_cons] at hrecent
      omega
    · have hgt := (List.pairwise_cons.1 h.sorted).1 x hx
      simp only [List.length_cons] at hrecent
      omega
  have hnodup : (t :: q).Nodup := h.sorted.imp fun hlt => Nat.ne_of_lt hlt
  have hle : (t :: q).length ≤ slots.length + 1 := by
    have hcount := (List.Nodup.subperm hnodup hsub).length_le
    rwa [List.length_range'] at hcount
  simp only [List.length_cons] at henough hmore hle
  omega

end Lag

/-! ## What the queues keep -/

/-- The timestamps to come, with the one that was popped for the frame in hand. -/
def stamps (s : RxQueues) : List Nat :=
  match s.pc with
  | .handle _ => s.popped.toList ++ s.ring
  | _ => s.ring

/-- There are as many timestamps to come as frames. -/
def InStep (s : RxQueues) : Prop := (stamps s).length = s.slots.length

instance (s : RxQueues) : Decidable (InStep s) := inferInstanceAs (Decidable (_ = _))

/-- What the firmware knows where it is. -/
def Holding (s : RxQueues) : Prop :=
  match s.pc with
  | .look _ => s.slots ≠ []
  | .handle _ => s.slots ≠ [] ∧ s.popped.isSome = true
  | .drop lvl => lvl ≤ s.ring.length
  | _ => True

structure Queued (s : RxQueues) : Prop where
  slots : s.slots.length ≤ nrxslots
  lag : Lag (stamps s) s.slots s.commits
  holding : Holding s

section Step

variable {s : RxQueues}

theorem queued_reset : Queued RxQueues.reset :=
  ⟨by decide, ⟨le_rfl, le_rfl, rfl, List.Pairwise.nil, fun _ h => absurd h (List.not_mem_nil)⟩, trivial⟩

theorem ring_le_stamps (s : RxQueues) : s.ring.length ≤ (stamps s).length := by
  rw [stamps]
  split
  · rw [List.length_append]
    omega
  · exact le_rfl

/-- What a stored frame adds to the timestamps. -/
theorem stamps_commit (hroom : s.slots.length < nrxslots) :
    stamps s.commit =
      if s.ring.length < rxTsDepth then stamps s ++ [s.commits] else stamps s := by
  rw [RxQueues.commit, if_pos hroom]
  by_cases hfull : s.ring.length < rxTsDepth
  · rw [if_pos hfull, if_pos hfull, stamps, stamps]
    cases s.pc <;> simp
  · rw [if_neg hfull, if_neg hfull]
    rfl

theorem slots_commit (hroom : s.slots.length < nrxslots) :
    s.commit.slots = s.slots ++ [s.commits] ∧ s.commit.commits = s.commits + 1 ∧
      s.commit.pc = s.pc := by
  rw [RxQueues.commit, if_pos hroom]
  exact ⟨rfl, rfl, rfl⟩

theorem holding_commit (h : Holding s) : Holding s.commit := by
  by_cases hroom : s.slots.length < nrxslots
  · obtain ⟨hslots, -, hpc⟩ := slots_commit hroom
    have hring : s.ring.length ≤ s.commit.ring.length := by
      rw [RxQueues.commit, if_pos hroom]
      show _ ≤ (if s.ring.length < rxTsDepth then s.ring ++ [s.commits] else s.ring).length
      split
      · rw [List.length_append]
        omega
      · exact le_rfl
    have hpopped : s.commit.popped = s.popped := by
      rw [RxQueues.commit, if_pos hroom]
    rw [Holding] at h
    rw [Holding, hpc, hslots, hpopped]
    cases hwhere : s.pc with
    | look budget => simp
    | handle budget =>
      rw [hwhere] at h
      exact ⟨by simp, h.2⟩
    | drop lvl =>
      rw [hwhere] at h
      exact le_trans h hring
    | boot => trivial
    | enter => trivial
    | test budget => trivial
  · rwa [RxQueues.commit, if_neg hroom]

theorem queued_commit (h : Queued s) : Queued s.commit := by
  by_cases hroom : s.slots.length < nrxslots
  · obtain ⟨hslots, hcommits, -⟩ := slots_commit hroom
    refine ⟨?_, ?_, holding_commit h.holding⟩
    · rw [hslots, List.length_append, List.length_singleton]
      exact hroom
    · rw [hslots, hcommits, stamps_commit hroom]
      split
      · exact h.lag.push
      · have hring := ring_le_stamps s
        exact h.lag.lose (by simp only [nrxslots, rxTsDepth] at *; omega)
  · rwa [RxQueues.commit, if_neg hroom]

theorem inStep_commit (h : Queued s) (hin : InStep s) : InStep s.commit := by
  by_cases hroom : s.slots.length < nrxslots
  · have hring := ring_le_stamps s
    have hslots := h.slots
    have hfree : s.ring.length < rxTsDepth := by
      rw [InStep] at hin
      simp only [nrxslots, rxTsDepth] at *
      omega
    rw [InStep, stamps_commit hroom, if_pos hfree, (slots_commit hroom).1, List.length_append,
      List.length_append, hin]
  · rwa [RxQueues.commit, if_neg hroom]

/-! ### The firmware -/

/-- A pop at the top of `dispatch_rx` drops the oldest entry. -/
theorem ring_of_drop {lvl : Nat} (h : Queued s) (hpc : s.pc = .drop lvl) (hlvl : lvl > 2) :
    ∃ t ring, s.ring = t :: ring ∧ stamps s = t :: ring ∧ nrxslots ≤ ring.length ∧
      rxStep s .go = ⟨ring, some t, s.slots, s.commits, .drop (lvl - 1)⟩ := by
  have hle : lvl ≤ s.ring.length := by
    have hholding := h.holding
    rwa [Holding, hpc] at hholding
  cases hring : s.ring with
  | nil =>
    rw [hring] at hle
    simp only [List.length_nil] at hle
    omega
  | cons t ring =>
    rw [hring, List.length_cons] at hle
    refine ⟨t, ring, rfl, ?_, ?_, ?_⟩
    · rw [stamps, hpc, hring]
    · simp only [nrxslots]
      omega
    · simp only [rxStep, hpc, if_pos hlvl, RxQueues.pop, hring, RxQueues.goto]

/-- The pop for a frame leaves its timestamp in the register. -/
theorem ring_of_look {budget : Nat} (h : Queued s) (hpc : s.pc = .look budget) :
    ∃ t ring f slots, s.slots = f :: slots ∧ stamps s = t :: ring ∧
      rxStep s .go = ⟨ring, some t, f :: slots, s.commits, .handle budget⟩ := by
  have hholding : s.slots ≠ [] := by
    have hholding := h.holding
    rwa [Holding, hpc] at hholding
  have hstamps : stamps s = s.ring := by rw [stamps, hpc]
  have henough := h.lag.enough
  rw [hstamps] at henough
  cases hslots : s.slots with
  | nil => exact absurd hslots hholding
  | cons f slots =>
    rw [hslots] at henough
    cases hring : s.ring with
    | nil =>
      rw [hring] at henough
      cases henough
    | cons t ring =>
      exact ⟨t, ring, f, slots, rfl, by rw [hstamps, hring],
        by simp only [rxStep, hpc, RxQueues.pop, hring, RxQueues.goto, hslots]⟩

/-- The release hands on the timestamp in the register. -/
theorem ring_of_handle {budget : Nat} (h : Queued s) (hpc : s.pc = .handle budget) :
    ∃ t f slots, s.popped = some t ∧ s.slots = f :: slots ∧ stamps s = t :: s.ring ∧
      dispatched s .go = [⟨f, some t⟩] ∧
      rxStep s .go = ⟨s.ring, some t, slots, s.commits, .test budget⟩ := by
  have hholding : s.slots ≠ [] ∧ s.popped.isSome = true := by
    have hholding := h.holding
    rwa [Holding, hpc] at hholding
  obtain ⟨t, ht⟩ := Option.isSome_iff_exists.1 hholding.2
  cases hslots : s.slots with
  | nil => exact absurd hslots hholding.1
  | cons f slots =>
    exact ⟨t, f, slots, ht, rfl, by rw [stamps, hpc, ht]; rfl,
      by simp only [dispatched, hpc, hslots, ht],
      by simp only [rxStep, hpc, RxQueues.release, RxQueues.goto, hslots, ht, List.tail_cons]⟩

/-- Where the firmware only goes on, the queues stay as they are. -/
def Stays (s : RxQueues) : Prop :=
  (∃ pc, rxStep s .go = s.goto pc ∧ stamps (s.goto pc) = stamps s ∧ Holding (s.goto pc)) ∧
    dispatched s .go = []

/-- What `go` does: it only goes on, it drops a stale entry, it pops for a frame, or it releases
one. -/
theorem go_cases (h : Queued s) :
    Stays s ∨
    (∃ t ring lvl, s.pc = .drop lvl ∧ lvl > 2 ∧ stamps s = t :: ring ∧ s.slots.length ≤ ring.length ∧
      lvl ≤ ring.length + 1 ∧ dispatched s .go = [] ∧
      rxStep s .go = ⟨ring, some t, s.slots, s.commits, .drop (lvl - 1)⟩) ∨
    (∃ t ring f slots budget, stamps s = t :: ring ∧ s.slots = f :: slots ∧
      dispatched s .go = [] ∧
      rxStep s .go = ⟨ring, some t, f :: slots, s.commits, .handle budget⟩) ∨
    ∃ t ring f slots budget, stamps s = t :: ring ∧ s.slots = f :: slots ∧
      dispatched s .go = [⟨f, some t⟩] ∧
      rxStep s .go = ⟨ring, some t, slots, s.commits, .test budget⟩ := by
  cases hpc : s.pc with
  | boot =>
    exact .inl ⟨⟨.enter, by simp only [rxStep, hpc], by simp only [stamps, hpc, RxQueues.goto],
      trivial⟩, by simp only [dispatched, hpc]⟩
  | enter =>
    exact .inl ⟨⟨.drop s.ring.length, by simp only [rxStep, hpc],
      by simp only [stamps, hpc, RxQueues.goto], le_rfl⟩, by simp only [dispatched, hpc]⟩
  | drop lvl =>
    by_cases hlvl : lvl > 2
    · obtain ⟨t, ring, hring, hstamps, htwo, hstep⟩ := ring_of_drop h hpc hlvl
      have hle : lvl ≤ s.ring.length := by
        have hholding := h.holding
        rwa [Holding, hpc] at hholding
      rw [hring, List.length_cons] at hle
      exact .inr (.inl ⟨t, ring, lvl, rfl, hlvl, hstamps, h.slots.trans htwo, hle,
        by simp only [dispatched, hpc], hstep⟩)
    · exact .inl ⟨⟨.test drainBudget, by simp only [rxStep, hpc, if_neg hlvl],
        by simp only [stamps, hpc, RxQueues.goto], trivial⟩, by simp only [dispatched, hpc]⟩
  | test budget =>
    by_cases hmore : s.slots ≠ [] ∧ budget > 0
    · exact .inl ⟨⟨.look (budget - 1), by simp only [rxStep, hpc, if_pos hmore],
        by simp only [stamps, hpc, RxQueues.goto], hmore.1⟩, by simp only [dispatched, hpc]⟩
    · exact .inl ⟨⟨.enter, by simp only [rxStep, hpc, if_neg hmore],
        by simp only [stamps, hpc, RxQueues.goto], trivial⟩, by simp only [dispatched, hpc]⟩
  | look budget =>
    obtain ⟨t, ring, f, slots, hslots, hstamps, hstep⟩ := ring_of_look h hpc
    exact .inr (.inr (.inl ⟨t, ring, f, slots, budget, hstamps, hslots,
      by simp only [dispatched, hpc], hstep⟩))
  | handle budget =>
    obtain ⟨t, f, slots, -, hslots, hstamps, hlog, hstep⟩ := ring_of_handle h hpc
    exact .inr (.inr (.inr ⟨t, s.ring, f, slots, budget, hstamps, hslots, hlog, hstep⟩))

theorem queued_go (h : Queued s) : Queued (rxStep s .go) := by
  rcases go_cases h with ⟨⟨pc, hstep, hstamps, hholding⟩, -⟩ |
    ⟨t, ring, lvl, -, hlvl, hstamps, hmore, hle, -, hstep⟩ |
    ⟨t, ring, f, slots, budget, hstamps, hslots, -, hstep⟩ |
    ⟨t, ring, f, slots, budget, hstamps, hslots, -, hstep⟩
  · rw [hstep]
    exact ⟨h.slots, hstamps ▸ h.lag, hholding⟩
  · rw [hstep]
    have hlag := h.lag
    rw [hstamps] at hlag
    refine ⟨h.slots, hlag.trim hmore, ?_⟩
    show lvl - 1 ≤ ring.length
    omega
  · rw [hstep]
    have hlag := h.lag
    have htwo := h.slots
    rw [hstamps, hslots] at hlag
    rw [hslots] at htwo
    exact ⟨htwo, hlag, List.cons_ne_nil _ _, rfl⟩
  · rw [hstep]
    have hlag := h.lag
    have htwo := h.slots
    rw [hstamps, hslots] at hlag
    rw [hslots, List.length_cons] at htwo
    exact ⟨Nat.le_of_succ_le htwo, hlag.take, trivial⟩

theorem queued_step (h : Queued s) (e : RxEvent) : Queued (rxStep s e) := by
  cases e with
  | arrive => exact queued_commit h
  | go => exact queued_go h
  | bootRelease =>
    rw [rxStep]
    split
    · rename_i hboot
      have hstamps : stamps s.release = stamps s := by
        simp only [stamps, RxQueues.release, hboot]
      refine ⟨?_, ?_, ?_⟩
      · show s.slots.tail.length ≤ nrxslots
        rw [List.length_tail]
        exact le_trans (Nat.sub_le _ _) h.slots
      · rw [hstamps]
        exact h.lag.forget
      · have hholding := h.holding
        rw [Holding, hboot] at hholding
        rw [Holding, show s.release.pc = .boot from hboot]
        trivial
    · exact h

/-- Once in step, the firmware keeps the queues in step. -/
theorem inStep_step (h : Queued s) (hin : InStep s) (hpc : s.pc ≠ .boot) (e : RxEvent) :
    InStep (rxStep s e) := by
  cases e with
  | arrive => exact inStep_commit h hin
  | bootRelease => rwa [rxStep, if_neg hpc]
  | go =>
    rw [InStep] at hin
    rcases go_cases h with ⟨⟨pc, hstep, hstamps, -⟩, -⟩ |
      ⟨t, ring, lvl, -, hlvl, hstamps, hmore, -, -, -⟩ |
      ⟨t, ring, f, slots, budget, hstamps, hslots, -, hstep⟩ |
      ⟨t, ring, f, slots, budget, hstamps, hslots, -, hstep⟩
    · rw [hstep, InStep, hstamps]
      exact hin
    · rw [hstamps, List.length_cons] at hin
      omega
    · rw [hstep, InStep]
      rwa [hstamps, hslots] at hin
    · rw [hstep, InStep]
      rw [hstamps, hslots] at hin
      exact Nat.succ.inj hin

theorem pc_ne_boot (hpc : s.pc ≠ .boot) (e : RxEvent) : (rxStep s e).pc ≠ .boot := by
  cases e with
  | arrive =>
    show s.commit.pc ≠ .boot
    rw [RxQueues.commit]
    split <;> exact hpc
  | bootRelease => rwa [rxStep, if_neg hpc]
  | go =>
    rw [rxStep]
    split
    · exact absurd ‹_› hpc
    · simp [RxQueues.goto]
    · split <;> simp [RxQueues.goto]
    · split <;> simp [RxQueues.goto]
    · simp [RxQueues.goto]
    · simp [RxQueues.goto]

end Step

/-! ## Out of step -/

section Runs

variable {x : RxQueues × List Dispatched}

/-- While the queues are out of step nothing has been paired right. -/
structure Misled (x : RxQueues × List Dispatched) : Prop where
  queued : Queued x.1
  fresh : x.1.pc = .boot → x.2 = []
  mispaired : ¬ InStep x.1 → ∀ d ∈ x.2, ¬ d.Own

theorem dispatched_boot {s : RxQueues} (hpc : s.pc = .boot) (e : RxEvent) : dispatched s e = [] := by
  cases e <;> simp only [dispatched, hpc]

/-- A frame that is processed out of step gets another frame's timestamp. -/
theorem dispatched_late {s : RxQueues} (h : Queued s) (hout : ¬ InStep s) (e : RxEvent) :
    ∀ d ∈ dispatched s e, ¬ d.Own := by
  cases e with
  | arrive => exact fun d hd => absurd hd (List.not_mem_nil)
  | bootRelease => exact fun d hd => absurd hd (List.not_mem_nil)
  | go =>
    rcases go_cases h with ⟨-, hlog⟩ | ⟨t, ring, lvl, -, -, -, -, -, hlog, -⟩ |
      ⟨t, ring, f, slots, budget, -, -, hlog, -⟩ |
      ⟨t, ring, f, slots, budget, hstamps, hslots, hlog, -⟩
    · rw [hlog]
      exact fun d hd => absurd hd (List.not_mem_nil)
    · rw [hlog]
      exact fun d hd => absurd hd (List.not_mem_nil)
    · rw [hlog]
      exact fun d hd => absurd hd (List.not_mem_nil)
    · have hlag := h.lag
      rw [hstamps, hslots] at hlag
      rw [InStep, hstamps, hslots] at hout
      rw [hlog]
      intro d hd
      rw [List.mem_singleton.1 hd]
      exact fun hown => hlag.late hout (Option.some.inj hown)

theorem misled_step (h : Misled x) (e : RxEvent) : Misled (rxLogged x e) := by
  refine ⟨queued_step h.queued e, fun hpc => ?_, fun hout => ?_⟩
  · have hboot : x.1.pc = .boot := by
      by_contra hne
      exact pc_ne_boot hne e hpc
    show x.2 ++ dispatched x.1 e = []
    rw [h.fresh hboot, dispatched_boot hboot e, List.append_nil]
  · show ∀ d ∈ x.2 ++ dispatched x.1 e, ¬ d.Own
    by_cases hboot : x.1.pc = .boot
    · rw [h.fresh hboot, dispatched_boot hboot e]
      exact fun d hd => absurd hd (List.not_mem_nil)
    · have hbefore : ¬ InStep x.1 := fun hin => hout (inStep_step h.queued hin hboot e)
      intro d hd
      rcases List.mem_append.1 hd with hd | hd
      · exact h.mispaired hbefore d hd
      · exact dispatched_late h.queued hbefore e d hd

theorem misled_run (es : List RxEvent) : Misled (run rxLogged rxStart es) := by
  have hstart : Misled rxStart :=
    ⟨queued_reset, fun _ => rfl, fun _ d hd => absurd hd (List.not_mem_nil)⟩
  exact run_invariant (P := Misled) rxLogged (fun _ e h => misled_step h e) es hstart

/-! ## In step -/

/-- From commit `c` on no timestamp is lost: every frame committed since has its own, in its place
of the queue or when it was processed.  `first` is the oldest frame of the account. -/
structure Paired (first c : Nat) (s : RxQueues) (new : List Dispatched) : Prop where
  queued : Queued s
  inStep : InStep s
  running : s.pc ≠ .boot
  aligned : List.Forall₂ (fun t f => c ≤ f → t = f) (stamps s) s.slots
  frames : new.map Dispatched.frame ++ s.slots = List.range' first (s.commits - first)
  commits : first ≤ s.commits
  own : ∀ d ∈ new, c ≤ d.frame → d.Own

variable {first c : Nat} {s : RxQueues} {new : List Dispatched}

/-- A pairing starts with whatever is stored when the queues are in step. -/
theorem paired_start (h : Queued s) (hin : InStep s) (hpc : s.pc ≠ .boot) :
    Paired (s.commits - s.slots.length) s.commits s [] := by
  have hrecent := h.lag.recent
  have hstored := h.lag.stored
  refine ⟨h, hin, hpc, ?_, ?_, Nat.sub_le _ _, fun d hd => absurd hd (List.not_mem_nil)⟩
  · refine List.forall₂_iff_zip.2 ⟨hin, fun {t f} hzip hle => ?_⟩
    have hf : f ∈ s.slots := (List.of_mem_zip hzip).2
    rw [hstored, List.mem_range'_1] at hf
    omega
  · have hcount : s.commits - (s.commits - s.slots.length) = s.slots.length := by omega
    rw [hcount]
    exact hstored

theorem paired_commit (h : Paired first c s new) : Paired first c s.commit new := by
  have hqueued : Queued s.commit := queued_commit h.queued
  have hin : InStep s.commit := inStep_commit h.queued h.inStep
  have hrun : s.commit.pc ≠ .boot := pc_ne_boot h.running .arrive
  by_cases hroom : s.slots.length < nrxslots
  · obtain ⟨hslots, hcommits, -⟩ := slots_commit hroom
    have hring := ring_le_stamps s
    have hstep := h.inStep
    have hfree : s.ring.length < rxTsDepth := by
      rw [InStep] at hstep
      simp only [nrxslots, rxTsDepth] at *
      omega
    have hle := h.commits
    refine ⟨hqueued, hin, hrun, ?_, ?_, by omega, h.own⟩
    · rw [stamps_commit hroom, if_pos hfree, hslots]
      exact List.rel_append h.aligned (List.Forall₂.cons (fun _ => rfl) .nil)
    · have hcount : s.commit.commits - first = s.commits - first + 1 := by omega
      have hlast : first + 1 * (s.commits - first) = s.commits := by omega
      rw [hslots, hcount, List.range'_concat, hlast, ← h.frames, List.append_assoc]
  · rw [RxQueues.commit, if_neg hroom] at *
    exact h

theorem paired_step (h : Paired first c s new) (e : RxEvent) :
    Paired first c (rxStep s e) (new ++ dispatched s e) := by
  have hqueued : Queued (rxStep s e) := queued_step h.queued e
  have hin : InStep (rxStep s e) := inStep_step h.queued h.inStep h.running e
  have hrun : (rxStep s e).pc ≠ .boot := pc_ne_boot h.running e
  cases e with
  | arrive =>
    show Paired first c s.commit (new ++ [])
    rw [List.append_nil]
    exact paired_commit h
  | bootRelease =>
    show Paired first c (if s.pc = .boot then s.release else s) (new ++ [])
    rw [List.append_nil, if_neg h.running]
    exact h
  | go =>
    have hstep := h.inStep
    have haligned := h.aligned
    have hframes := h.frames
    rw [InStep] at hstep
    rcases go_cases h.queued with ⟨⟨pc, hgo, hstamps, -⟩, hlog⟩ |
      ⟨t, ring, lvl, -, hlvl, hstamps, hmore, -, -, -⟩ |
      ⟨t, ring, f, slots, budget, hstamps, hslots, hlog, hgo⟩ |
      ⟨t, ring, f, slots, budget, hstamps, hslots, hlog, hgo⟩
    · rw [hgo] at hqueued hin hrun ⊢
      rw [hlog, List.append_nil]
      exact ⟨hqueued, hin, hrun, hstamps ▸ haligned, hframes, h.commits, h.own⟩
    · rw [hstamps, List.length_cons] at hstep
      omega
    · rw [hgo] at hqueued hin hrun ⊢
      rw [hlog, List.append_nil]
      rw [hstamps, hslots] at haligned
      rw [hslots] at hframes
      exact ⟨hqueued, hin, hrun, haligned, hframes, h.commits, h.own⟩
    · rw [hgo] at hqueued hin hrun ⊢
      rw [hstamps, hslots] at haligned
      rw [hslots] at hframes
      obtain ⟨hhead, htail⟩ := List.forall₂_cons.1 haligned
      rw [hlog]
      refine ⟨hqueued, hin, hrun, htail, ?_, h.commits, fun d hd hle => ?_⟩
      · rw [List.map_append, List.append_assoc]
        exact hframes
      · rcases List.mem_append.1 hd with hd | hd
        · exact h.own d hd hle
        · rw [List.mem_singleton.1 hd] at hle ⊢
          exact congrArg some (hhead hle)

/-- At most the two frames stored at the start are without their own timestamp. -/
theorem Paired.own_drop (h : Paired first c s new) (hfirst : c ≤ first + 2) :
    ∀ d ∈ new.drop 2, d.Own := by
  intro d hd
  obtain ⟨j, hj, rfl⟩ := List.mem_iff_getElem.1 hd
  rw [List.length_drop] at hj
  have hframe : (new[2 + j]).frame = first + (2 + j) := by
    have hget : (new.map Dispatched.frame ++ s.slots)[2 + j]? = some (new[2 + j]).frame := by
      rw [List.getElem?_append_left (by rw [List.length_map]; omega), List.getElem?_map,
        List.getElem?_eq_getElem (by omega)]
      rfl
    rw [h.frames] at hget
    obtain ⟨hlt, hval⟩ := List.getElem?_eq_some_iff.1 hget
    rw [List.getElem_range'] at hval
    omega
  rw [List.getElem_drop]
  exact h.own _ (List.getElem_mem _) (by omega)

theorem paired_run (fs : List RxEvent) :
    ∀ {x : RxQueues × List Dispatched} {log : List Dispatched}, x.2 = log ++ new →
      Paired first c x.1 new → ∃ new', (run rxLogged x fs).2 = log ++ new' ∧
        Paired first c (run rxLogged x fs).1 new' := by
  induction fs generalizing new with
  | nil => exact fun hlog h => ⟨new, hlog, h⟩
  | cons e fs ih =>
    intro x log hlog h
    refine ih (x := rxLogged x e) ?_ (paired_step h e)
    show x.2 ++ dispatched x.1 e = _
    rw [hlog, List.append_assoc]

/-! ## Trimming with two frames stored -/

/-- The level was read with two frames stored, and the loop drops the rest. -/
def Trimming (s : RxQueues) : Prop :=
  s.slots.length = nrxslots ∧ s.pc = .drop s.ring.length

theorem trimming_step (h : Queued s) (ht : Trimming s) (e : RxEvent) :
    Trimming (rxStep s e) ∨ InStep (rxStep s e) ∧ (rxStep s e).pc ≠ .boot := by
  obtain ⟨htwo, hpc⟩ := ht
  cases e with
  | arrive =>
    have hfull : ¬ s.slots.length < nrxslots := by omega
    show Trimming s.commit ∨ _
    rw [RxQueues.commit, if_neg hfull]
    exact .inl ⟨htwo, hpc⟩
  | bootRelease =>
    rw [rxStep, if_neg (by simp [hpc])]
    exact .inl ⟨htwo, hpc⟩
  | go =>
    by_cases hlvl : s.ring.length > 2
    · obtain ⟨t, ring, hring, -, -, hstep⟩ := ring_of_drop h hpc hlvl
      have hlen : s.ring.length - 1 = ring.length := by simp [hring]
      rw [hstep]
      exact .inl ⟨htwo, by rw [hlen]⟩
    · have henough := h.lag.enough
      have hstamps : stamps s = s.ring := by rw [stamps, hpc]
      have hstep : rxStep s .go = s.goto (.test drainBudget) := by
        simp only [rxStep, hpc, if_neg hlvl]
      rw [hstamps] at henough
      rw [hstep]
      refine .inr ⟨?_, by simp [RxQueues.goto]⟩
      show s.ring.length = s.slots.length
      simp only [nrxslots] at htwo
      omega

theorem trimming_run (h : Queued s) (ht : Trimming s) (fs : List RxEvent) :
    Trimming (run rxStep s fs) ∨ InStep (run rxStep s fs) := by
  have hrun := run_invariant (P := fun s => Queued s ∧ (Trimming s ∨ InStep s ∧ s.pc ≠ .boot)) rxStep
    (fun s e hs => ⟨queued_step hs.1 e, hs.2.elim (fun ht => trimming_step hs.1 ht e)
      fun hin => .inr ⟨inStep_step hs.1 hin.1 hin.2 e, pc_ne_boot hin.2 e⟩⟩)
    fs ⟨h, .inl ht⟩
  exact hrun.2.imp_right And.left

end Runs

/-! ## The pairing law -/

/-- In every run from reset, whatever the boot leaves in the ring and however arrivals fall
between the accesses of `dispatch_rx`.  (1) As long as the ring has more timestamps than there are
frames stored, every frame processed so far came with another frame's timestamp.  (2) Once the
counts agree they agree for ever, and of the frames processed from there on only the first two can
come with a timestamp that is not their own.  (3) A call that reads the level with two frames
stored makes the counts agree by the end of its drop loop. -/
theorem rx_stamps_realign (es : List RxEvent) :
    let x := run rxLogged rxStart es
    (¬ InStep x.1 → ∀ d ∈ x.2, ¬ d.Own) ∧
    (InStep x.1 → x.1.pc ≠ .boot → ∀ fs, InStep (run rxLogged x fs).1 ∧
      ∃ new, (run rxLogged x fs).2 = x.2 ++ new ∧ ∀ d ∈ new.drop 2, d.Own) ∧
    (x.1.pc = .enter → x.1.slots.length = nrxslots → ∀ fs,
      (∃ lvl, (run rxStep x.1 (.go :: fs)).pc = .drop lvl) ∨
        InStep (run rxStep x.1 (.go :: fs))) := by
  intro x
  have h : Misled x := misled_run es
  refine ⟨h.mispaired, fun hin hpc fs => ?_, fun hpc htwo fs => ?_⟩
  · obtain ⟨new, hlog, hpaired⟩ := paired_run fs (List.append_nil x.2).symm
      (paired_start h.queued hin hpc)
    have hrecent := h.queued.lag.recent
    have htwo := h.queued.slots
    exact ⟨hpaired.inStep, new, hlog, hpaired.own_drop (by simp only [nrxslots] at htwo; omega)⟩
  · have hgo : rxStep x.1 .go = x.1.goto (.drop x.1.ring.length) := by simp only [rxStep, hpc]
    have htrim : Trimming (rxStep x.1 .go) := by
      rw [hgo]
      exact ⟨htwo, rfl⟩
    rw [run_cons]
    exact (trimming_run (queued_step h.queued .go) htrim fs).imp_left fun ht => ⟨_, ht.2⟩

/-- Three frames pass through the loader, and two more are stored when the firmware starts. -/
def busyBoot : List RxEvent :=
  [.arrive, .bootRelease, .arrive, .bootRelease, .arrive, .bootRelease, .arrive, .arrive, .go]

/-- The first call drops the three stale entries, and every frame has its own timestamp. -/
theorem rx_stamps_busy_boot :
    InStep (run rxStep (run rxLogged rxStart busyBoot).1 [.go, .go, .go, .go, .go]) ∧
      (run rxLogged rxStart busyBoot).1.ring.length = 5 := by
  refine ⟨?_, by decide⟩
  rcases (rx_stamps_realign busyBoot).2.2 (by decide) (by decide) [.go, .go, .go, .go] with h | h
  · obtain ⟨lvl, hlvl⟩ := h
    have hend : (run rxStep (run rxLogged rxStart busyBoot).1 [.go, .go, .go, .go, .go]).pc =
        .test 64 := by decide
    rw [hend] at hlvl
    cases hlvl
  · exact h

/-- One call of `dispatch_rx` for one frame. -/
def sparseCall : List RxEvent := [.arrive, .go, .go, .go, .go, .go, .go]

/-- One frame passes through the loader; then frames arrive one at a time. -/
def sparseRun : Nat → List RxEvent
  | 0 => [.arrive, .bootRelease, .go]
  | n + 1 => sparseRun n ++ sparseCall

theorem sparseRun_state (n : Nat) :
    (run rxLogged rxStart (sparseRun n)).1.ring = [n] ∧
      (run rxLogged rxStart (sparseRun n)).1.slots = [] ∧
      (run rxLogged rxStart (sparseRun n)).1.commits = n + 1 ∧
      (run rxLogged rxStart (sparseRun n)).1.pc = .enter ∧
      (run rxLogged rxStart (sparseRun n)).2.length = n := by
  induction n with
  | zero => decide
  | succ n ih =>
    rw [sparseRun, run_append]
    generalize run rxLogged rxStart (sparseRun n) = x at ih
    obtain ⟨⟨ring, popped, slots, commits, pc⟩, log⟩ := x
    obtain ⟨rfl, rfl, rfl, rfl, hlen⟩ := ih
    refine ⟨rfl, rfl, rfl, rfl, ?_⟩
    show (log ++ [] ++ [] ++ [] ++ [] ++ [] ++ [(⟨n + 1, some n⟩ : Dispatched)] ++ []).length = n + 1
    simp [hlen]

/-- One stale entry is never dropped while frames come one at a time: runs of every length exist
in which every frame is processed with the timestamp of the one before. -/
theorem misled_runs (n : Nat) : ∃ es, (run rxLogged rxStart es).2.length = n ∧
    ∀ d ∈ (run rxLogged rxStart es).2, ¬ d.Own := by
  obtain ⟨hring, hslots, -, hpc, hlen⟩ := sparseRun_state n
  refine ⟨sparseRun n, hlen, (misled_run (sparseRun n)).mispaired ?_⟩
  rw [InStep, stamps, hpc, hslots]
  simp [hring]

/-- No number of processed frames is enough for one of them to get its own timestamp. -/
theorem rx_stamps_stay_late :
    ¬ ∃ n, ∀ es, (run rxLogged rxStart es).2.length = n →
      ∃ d ∈ (run rxLogged rxStart es).2, d.Own := by
  rintro ⟨n, henough⟩
  obtain ⟨es, hlen, hlate⟩ := misled_runs n
  obtain ⟨d, hd, hown⟩ := henough es hlen
  exact hlate d hd hown

end Mac
end InfernoFpga
