import InfernoFpga.Lib.Framing
import InfernoFpga.Lib.Run
import Mathlib.Data.List.FinRange
import Mathlib.Order.WellFounded

/-!
# TxArbiter — `TXFrameArbiter` in front of the MAC core

Any number of streams share the sink of the MAC.  Index 0, the firmware's SRAM reader, has the
highest priority.  A grant is given to the lowest index that has a beat and holds until that
source has its last beat accepted.
-/

namespace InfernoFpga
namespace Mac

open Lib

/-! ## Signals -/

/-- One beat of `eth_phy_description(32)`. -/
structure Beat where
  data : BitVec 32
  lastBe : BitVec 4
  error : BitVec 4
  last : Bool
  deriving DecidableEq

/-- What a stream drives on a cycle. -/
structure Offer where
  valid : Bool
  beat : Beat
  deriving DecidableEq

/-- The undriven endpoint. -/
def Offer.idle : Offer := ⟨false, ⟨0, 0, 0, false⟩⟩

/-- The inputs of a cycle: every source, and the ready of the MAC core. -/
structure Cycle (n : Nat) where
  offers : Fin n → Offer
  ready : Bool

/-- The registers. -/
structure Arbiter where
  sel : Nat
  busy : Bool
  deriving DecidableEq

def Arbiter.reset : Arbiter := ⟨0, false⟩

section Signals

variable {n : Nat} (s : Arbiter) (c : Cycle n)

/-- `busy & (sel == i)`. -/
def granted (i : Fin n) : Bool := s.busy && s.sel == i.val

/-- `source`: every source assigns it when it is granted, the last assignment wins. -/
def source : Offer :=
  (List.finRange n).foldl (fun out i => if granted s i then c.offers i else out) Offer.idle

/-- `s.ready` of source `i`. -/
def readyOf (i : Fin n) : Bool := granted s i && c.ready

/-- `nextsel`: assigned from the highest index down, so that index 0 wins. -/
def nextsel : Nat :=
  (List.finRange n).reverse.foldl (fun sel i => if (c.offers i).valid then i.val else sel) 0

def anyv : Bool := (List.finRange n).any fun i => (c.offers i).valid

def arbiterStep : Arbiter :=
  if !s.busy then
    if anyv c then ⟨nextsel c, true⟩ else s
  else if (source s c).valid && c.ready && (source s c).beat.last then ⟨s.sel, false⟩
  else s

end Signals

/-! ## Who drives the output -/

section Output

variable {n : Nat} {s : Arbiter} {c : Cycle n}

theorem foldl_if_none {γ : Type*} {p : Fin n → Bool} {g : Fin n → γ} {out : γ} (l : List (Fin n))
    (h : ∀ i ∈ l, p i = false) : l.foldl (fun out i => if p i then g i else out) out = out := by
  induction l generalizing out with
  | nil => rfl
  | cons i l ih =>
    rw [List.foldl_cons, h i List.mem_cons_self]
    exact ih fun j hj => h j (List.mem_cons_of_mem i hj)

/-- The assignment of the last index that meets the condition is the one that stays. -/
theorem foldl_if_last {γ : Type*} {p : Fin n → Bool} {g : Fin n → γ} {out : γ} {i : Fin n}
    (l l' : List (Fin n)) (hi : p i = true) (h : ∀ j ∈ l', p j = false) :
    (l ++ i :: l').foldl (fun out i => if p i then g i else out) out = g i := by
  rw [List.foldl_append, List.foldl_cons, hi]
  exact foldl_if_none l' h

theorem granted_iff {i : Fin n} : granted s i = true ↔ s.busy = true ∧ s.sel = i.val := by
  simp [granted]

/-- A granted source drives the output. -/
theorem source_granted {i : Fin n} (h : granted s i = true) : source s c = c.offers i := by
  obtain ⟨l, l', hsplit⟩ := List.append_of_mem (List.mem_finRange i)
  have hnodup : (l ++ i :: l').Nodup := hsplit ▸ List.nodup_finRange n
  rw [source, hsplit]
  refine foldl_if_last l l' h fun j hj => ?_
  by_contra hgrant
  have hsame : j = i := by
    rw [Bool.not_eq_false, granted_iff] at hgrant
    rw [granted_iff] at h
    exact Fin.ext (hgrant.2.symm.trans h.2)
  rw [hsame] at hj
  exact (List.nodup_cons.1 (List.nodup_append.1 hnodup).2.1).1 hj

/-- The output is valid only while some source is granted. -/
theorem source_valid (h : (source s c).valid = true) :
    ∃ i : Fin n, granted s i = true ∧ source s c = c.offers i := by
  by_contra hnone
  have hfree : ∀ i : Fin n, granted s i = false := fun i => by
    by_contra hi
    exact hnone ⟨i, by simpa using hi, source_granted (by simpa using hi)⟩
  have hidle : source s c = Offer.idle := foldl_if_none _ fun i _ => hfree i
  rw [hidle] at h
  exact Bool.noConfusion h

/-- The priority encoder finds the lowest index that has a beat. -/
theorem nextsel_lowest (h : anyv c = true) :
    ∃ i : Fin n, nextsel c = i.val ∧ (c.offers i).valid = true ∧
      ∀ j < i, (c.offers j).valid = false := by
  obtain ⟨k, hk⟩ : ∃ k : Fin n, (c.offers k).valid = true := by
    simpa [anyv] using h
  obtain ⟨i, hi, hlow⟩ := WellFounded.has_min (wellFounded_lt (α := Fin n))
    {k | (c.offers k).valid = true} ⟨k, hk⟩
  have hbelow : ∀ j < i, (c.offers j).valid = false := fun j hj => by
    by_contra hv
    exact hlow j (by simpa using hv) hj
  refine ⟨i, ?_, hi, hbelow⟩
  obtain ⟨l, l', hsplit⟩ := List.append_of_mem (List.mem_finRange i)
  have hsorted : (l ++ i :: l').Pairwise (· < ·) := hsplit ▸ List.pairwise_lt_finRange n
  have hfront : ∀ j ∈ l, j < i := fun j hj =>
    (List.pairwise_append.1 hsorted).2.2 j hj i List.mem_cons_self
  have hreverse : (List.finRange n).reverse = l'.reverse ++ i :: l.reverse := by
    rw [hsplit, List.reverse_append, List.reverse_cons, List.append_assoc]
    rfl
  rw [nextsel, hreverse]
  exact foldl_if_last _ _ hi fun j hj => hbelow j (hfront j (List.mem_reverse.1 hj))

end Output

/-! ## The history of the streams -/

/-- What was transferred: on the output, each beat with the index that was granted, and by each
source. -/
structure Transfers (n : Nat) where
  out : List (Nat × Beat)
  taken : Fin n → List Beat

namespace Transfers

variable {n : Nat}

def none : Transfers n := ⟨[], fun _ => []⟩

def next (s : Arbiter) (c : Cycle n) (x : Transfers n) : Transfers n :=
  { out := if (source s c).valid && c.ready then x.out ++ [(s.sel, (source s c).beat)] else x.out
    taken := fun i =>
      if (c.offers i).valid && readyOf s c i then x.taken i ++ [(c.offers i).beat]
      else x.taken i }

end Transfers

/-- The arbiter with the history of its streams. -/
def arbitrate {n : Nat} : Arbiter × Transfers n → Cycle n → Arbiter × Transfers n :=
  watch arbiterStep Transfers.next

/-- Ends of frames on the output. -/
def frameEnd (b : Nat × Beat) : Bool := b.2.last

/-- The registers against the history. -/
structure Arbitrated {n : Nat} (s : Arbiter) (x : Transfers n) : Prop where
  sel : s.busy = true → s.sel < n
  owners : ∀ b ∈ x.out, b.1 < n
  taken : ∀ i : Fin n, (x.out.filter fun b => decide (b.1 = i.val)).map Prod.snd = x.taken i
  unbroken : Unbroken frameEnd Prod.fst x.out
  held : ∀ b ∈ x.out.getLast?, frameEnd b = false → s.busy = true ∧ s.sel = b.1

section Step

variable {n : Nat} {s : Arbiter} {c : Cycle n} {x : Transfers n}

/-- Only the granted source has a beat accepted, and it is the one on the output. -/
theorem taken_next (i : Fin n) :
    (Transfers.next s c x).taken i =
      if (source s c).valid && c.ready && decide (s.sel = i.val) then
        x.taken i ++ [(source s c).beat]
      else x.taken i := by
  show (if (c.offers i).valid && readyOf s c i then _ else _) = _
  cases hgrant : granted s i with
  | true =>
    have hsel := (granted_iff.1 hgrant).2
    rw [source_granted hgrant, readyOf, hgrant, hsel]
    simp
  | false =>
    have hnot : ((source s c).valid && c.ready && decide (s.sel = i.val)) = false := by
      by_contra htaken
      simp only [Bool.not_eq_false, Bool.and_eq_true, decide_eq_true_iff] at htaken
      obtain ⟨j, hj, -⟩ := source_valid htaken.1.1
      have hbusy := (granted_iff.1 hj).1
      rw [granted_iff.2 ⟨hbusy, htaken.2⟩] at hgrant
      exact Bool.noConfusion hgrant
    rw [readyOf, hgrant, hnot]
    simp

/-- While a grant holds and its last beat has not been transferred, it goes on holding. -/
theorem grant_held (hbusy : s.busy = true)
    (hlast : ((source s c).valid && c.ready && (source s c).beat.last) = false) :
    arbiterStep s c = s := by
  rw [arbiterStep, hbusy, hlast]
  rfl

theorem sel_step (h : s.busy = true → s.sel < n) (hbusy : (arbiterStep s c).busy = true) :
    (arbiterStep s c).sel < n := by
  cases hwas : s.busy with
  | false =>
    rw [arbiterStep, hwas] at hbusy ⊢
    cases hany : anyv c with
    | false =>
      rw [hany] at hbusy
      exact Bool.noConfusion (hwas.symm.trans hbusy)
    | true =>
      obtain ⟨i, hi, -⟩ := nextsel_lowest hany
      show nextsel c < n
      rw [hi]
      exact i.isLt
  | true =>
    have hlt := h hwas
    rw [arbiterStep, hwas]
    show (if _ then (⟨s.sel, false⟩ : Arbiter) else s).sel < n
    split <;> exact hlt

theorem arbitrated_step (h : Arbitrated s x) :
    Arbitrated (arbiterStep s c) (Transfers.next s c x) := by
  cases hmove : (source s c).valid && c.ready with
  | false =>
    have hout : (Transfers.next s c x).out = x.out := by
      show (if _ then _ else _) = _
      rw [hmove]
      rfl
    have htaken : ∀ i, (Transfers.next s c x).taken i = x.taken i := fun i => by
      rw [taken_next, hmove]
      rfl
    refine ⟨sel_step h.sel, ?_, fun i => ?_, ?_, fun b hb hend => ?_⟩
    · rw [hout]
      exact h.owners
    · rw [hout, htaken]
      exact h.taken i
    · rw [hout]
      exact h.unbroken
    · rw [hout] at hb
      have hheld := h.held b hb hend
      rw [grant_held hheld.1 (by rw [hmove]; rfl)]
      exact hheld
  | true =>
    have hvalid : (source s c).valid = true := (Bool.and_eq_true _ _ ▸ hmove).1
    obtain ⟨j, hj, -⟩ := source_valid hvalid
    obtain ⟨hbusy, hsel⟩ := granted_iff.1 hj
    have hout : (Transfers.next s c x).out = x.out ++ [(s.sel, (source s c).beat)] := by
      show (if _ then _ else _) = _
      rw [hmove]
      rfl
    refine ⟨sel_step h.sel, ?_, fun i => ?_, ?_, fun b hb hend => ?_⟩
    · intro b hb
      rw [hout, List.mem_append, List.mem_singleton] at hb
      rcases hb with hb | rfl
      · exact h.owners b hb
      · exact h.sel hbusy
    · rw [hout, taken_next, hmove, List.filter_append, List.map_append, h.taken i]
      by_cases hi : s.sel = i.val
      · simp [hi]
      · simp [hi]
    · rw [hout, Unbroken, List.isChain_append]
      refine ⟨h.unbroken, List.isChain_singleton _, fun a ha b hb hend => ?_⟩
      have hb' : b = (s.sel, (source s c).beat) := by simpa [eq_comm] using hb
      rw [hb']
      exact (h.held a ha hend).2.symm
    · rw [hout, List.getLast?_concat] at hb
      have hb' : b = (s.sel, (source s c).beat) := by simpa [eq_comm] using hb
      rw [hb'] at hend ⊢
      have hlast : (source s c).beat.last = false := hend
      rw [grant_held hbusy (by rw [hlast]; exact Bool.and_false _)]
      exact ⟨hbusy, rfl⟩

end Step

theorem arbitrated_reset {n : Nat} : Arbitrated Arbiter.reset (Transfers.none (n := n)) where
  sel := fun h => Bool.noConfusion h
  owners := fun _ hb => absurd hb (List.not_mem_nil)
  taken := fun _ => rfl
  unbroken := List.isChain_nil
  held := fun _ hb => absurd hb (by simp [Transfers.none])

/-! ## The arbitration law -/

/-- The grant, while there is one. -/
def Arbiter.grant (s : Arbiter) : Option Nat := if s.busy then some s.sel else none

/-- For any number of sources and any signals.  (1) What each source had accepted is, beat for
beat and in its order, what the output carried under its grant, and the output carried nothing
else.  (2) Cut behind the last beats, every frame of the output has one owner, and the frames of
an owner are the frames it sent.  (3) A grant ends only on a cycle that transfers a last beat.
(4) A new grant goes to the lowest index that has a beat, as soon as any has. -/
theorem arbiter_frame_atomic {n : Nat} (cs : List (Cycle n)) (c : Cycle n) :
    let s := (run arbitrate (Arbiter.reset, Transfers.none) cs).1
    let x := (run arbitrate (Arbiter.reset, Transfers.none) cs).2
    ((∀ i : Fin n, (x.out.filter fun b => decide (b.1 = i.val)).map Prod.snd = x.taken i) ∧
      ∀ b ∈ x.out, b.1 < n) ∧
    ((∀ f ∈ cut frameEnd x.out, ∃ i : Fin n, ∀ b ∈ f, b.1 = i.val) ∧
      ∀ i : Fin n, cut Beat.last (x.taken i) =
        ((cut frameEnd x.out).filter (ownedBy Prod.fst i.val)).map (List.map Prod.snd)) ∧
    (∀ k, s.grant = some k → (arbiterStep s c).grant ≠ some k →
      ((source s c).valid && c.ready && (source s c).beat.last) = true ∧
        (arbiterStep s c).grant = none) ∧
    (s.grant = none →
      (∀ k, (arbiterStep s c).grant = some k → ∃ i : Fin n, k = i.val ∧
        (c.offers i).valid = true ∧ ∀ j < i, (c.offers j).valid = false) ∧
      ((arbiterStep s c).grant = none → ∀ i, (c.offers i).valid = false)) := by
  intro s x
  have h : Arbitrated s x :=
    run_invariant (P := fun p : Arbiter × Transfers n => Arbitrated p.1 p.2) arbitrate
      (fun _ _ hp => arbitrated_step hp) cs arbitrated_reset
  refine ⟨⟨h.taken, h.owners⟩, ⟨fun f hf => ?_, fun i => ?_⟩, fun k hk hnext => ?_, fun hfree => ?_⟩
  · cases f with
    | nil => exact absurd rfl (ne_nil_of_mem_cut frameEnd hf)
    | cons a f =>
      have hmem : a ∈ x.out := by
        rw [← flatten_cut frameEnd x.out]
        exact List.mem_flatten.2 ⟨_, hf, List.mem_cons_self⟩
      exact ⟨⟨a.1, h.owners a hmem⟩, fun b hb =>
        h.unbroken.owned _ hf b hb a List.mem_cons_self⟩
  · rw [← h.taken i, cut_map, ← h.unbroken.cut_filter]
    rfl
  · have hbusy : s.busy = true := by
      by_contra hb
      rw [Arbiter.grant, if_neg hb] at hk
      cases hk
    have hlast : ((source s c).valid && c.ready && (source s c).beat.last) = true := by
      by_contra hl
      rw [grant_held hbusy (by simpa using hl)] at hnext
      exact hnext hk
    refine ⟨hlast, ?_⟩
    rw [arbiterStep, hbusy, hlast]
    rfl
  · have hbusy : s.busy = false := by
      cases hb : s.busy with
      | false => rfl
      | true =>
        rw [Arbiter.grant, if_pos hb] at hfree
        cases hfree
    have hstep : arbiterStep s c = if anyv c then ⟨nextsel c, true⟩ else s := by
      rw [arbiterStep, hbusy]
      rfl
    rw [hstep]
    cases hany : anyv c with
    | true =>
      refine ⟨fun k hk => ?_, fun hnone => ?_⟩
      · obtain ⟨i, hi, hrest⟩ := nextsel_lowest hany
        have hk' : nextsel c = k := Option.some.inj hk
        exact ⟨i, hk'.symm.trans hi, hrest⟩
      · cases hnone
    | false =>
      refine ⟨fun k hk => ?_, fun _ i => ?_⟩
      · rw [if_neg (by decide), hfree] at hk
        cases hk
      · rw [anyv, List.any_eq_false] at hany
        simpa using hany i (List.mem_finRange i)

end Mac
end InfernoFpga
