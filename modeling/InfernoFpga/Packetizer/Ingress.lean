import InfernoFpga.Lib.Run
import InfernoFpga.Lib.Slots
import InfernoFpga.Packetizer.Machine

/-!
# Ingress — the frame grid of the sample rings

USB samples carry their channel number, and a marker where a frame begins.  The ring write takes
its address from both: the marker moves the frame base on, whether or not the ring has space, and
the channel number picks ring and offset.  So where a sample belongs can be read off the samples
alone, and a sample that is dropped leaves its own entry as it was and no other.
-/

namespace InfernoFpga
namespace Packetizer

open Lib

/-! ## Samples and what becomes of them -/

/-- A USB sample: its channel number, the frame marker and the audio. -/
structure Sample where
  channel : Nat
  marker : Bool
  audio : Word

/-- The sample that is popped in a cycle. -/
def Input.sample (i : Input) : List Sample :=
  if i.usbReadable then
    [⟨i.usbSampleHi.toNat % 64, i.usbSampleHi.getLsbD 6, i.usbSampleLo⟩]
  else []

/-- The sample in the ingress register. -/
def registered (s : State) : List Sample :=
  if s.sampVld then [⟨chanNr s, first s, s.sampLoR⟩] else []

/-- The sample that is offered to the ring in a cycle, and whether the ring takes it. -/
def offer (s : State) (i : Input) : List (Sample × Bool) :=
  (registered s).map fun x => (x, doWrite s i)

/-- The write port of that cycle: ring `bundle`, address `wr_addr` within it. -/
def attempt (s : State) (i : Input) : List (Attempt (Nat × Nat) (BitVec 36)) :=
  (registered s).map fun x =>
    ⟨(bundle s, (wrAddr s).toNat % sringDepth), packed x.audio, doWrite s i⟩

/-- All rings, by ring and address. -/
def rings (s : State) : Nat × Nat → BitVec 36 := fun x => s.ring x.1 x.2

/-! ## The frame grid -/

/-- Ring and address of channel `c` in frame `k`. -/
def slotOf (k c : Nat) : Nat × Nat := (c / channels, (channels * k + c % channels) % sringDepth)

/-- Ring and address of each sample in turn, the first of them in frame `k` or at its marker. -/
def slots : Nat → List Sample → List (Nat × Nat)
  | _, [] => []
  | k, x :: xs =>
      let frame := if x.marker then k + 1 else k
      slotOf frame x.channel :: slots frame xs

/-- The frame the samples have come to. -/
def frameOf (k : Nat) (xs : List Sample) : Nat := k + xs.countP Sample.marker

/-- The samples offered, each at its place of the grid. -/
def grid : Nat → List (Sample × Bool) → List (Attempt (Nat × Nat) (BitVec 36))
  | _, [] => []
  | k, (x, taken) :: os =>
      let frame := if x.marker then k + 1 else k
      ⟨slotOf frame x.channel, packed x.audio, taken⟩ :: grid frame os

theorem slot_grid (k : Nat) (os : List (Sample × Bool)) :
    (grid k os).map Attempt.slot = slots k (os.map Prod.fst) := by
  induction os generalizing k with
  | nil => rfl
  | cons o os ih =>
      rw [grid, List.map_cons, List.map_cons, slots, ih]

/-- Every place of the grid is that of a sample of the ring's own channel in some frame. -/
theorem mem_grid {k : Nat} {os : List (Sample × Bool)} {w : Attempt (Nat × Nat) (BitVec 36)}
    (h : w ∈ grid k os) : ∃ x frame, (x, w.taken) ∈ os ∧ w.slot = slotOf frame x.channel ∧
      w.value = packed x.audio := by
  induction os generalizing k with
  | nil => exact absurd h List.not_mem_nil
  | cons o os ih =>
      rw [grid] at h
      rcases List.mem_cons.1 h with rfl | h
      · exact ⟨o.1, _, List.mem_cons_self, rfl, rfl⟩
      · obtain ⟨x, frame, hx, hslot, hvalue⟩ := ih h
        exact ⟨x, frame, List.mem_cons_of_mem o hx, hslot, hvalue⟩

/-- A place of the grid names its channel. -/
theorem channel_of_slot {k c b a : Nat} (h : slotOf k c = (b, a)) : c = channels * b + a % channels := by
  have hb : c / 8 = b := congrArg Prod.fst h
  have ha : (8 * k + c % 8) % 2048 = a := congrArg Prod.snd h
  show c = 8 * b + a % 8
  omega

/-! ## One cycle -/

section Cycle

variable {s : State} {i : Input} {k : Nat}

theorem registered_step (s : State) (i : Input) : registered (step s i) = i.sample := by
  show (if i.usbReadable then [Sample.mk _ _ _] else []) = _
  cases h : i.usbReadable with
  | false => simp [Input.sample, h]
  | true => simp [Input.sample, h, chanNr, first, step]

/-- The rings take what the write port is given. -/
theorem rings_step (s : State) (i : Input) :
    rings (step s i) = deposited (rings s) (attempt s i) := by
  funext ⟨b, a⟩
  show nextRing s i b a = _
  rw [nextRing, attempt, registered]
  cases hvld : s.sampVld with
  | false =>
      have hno : doWrite s i = false := by simp [doWrite, hvld]
      rw [hno]
      rfl
  | true =>
      show _ = deposit _ _ (b, a)
      rw [deposit]
      dsimp only
      cases hwrite : doWrite s i with
      | false => rfl
      | true =>
          rw [if_pos rfl, Function.update_apply, Bool.true_and]
          by_cases hslot : (b, a) = (bundle s, (wrAddr s).toNat % sringDepth)
          · cases hslot
            rw [if_pos rfl]
            exact if_pos (by simp)
          · rw [if_neg hslot]
            refine if_neg fun hsame => hslot ?_
            rw [Bool.and_eq_true, beq_iff_eq, beq_iff_eq] at hsame
            rw [hsame.1, hsame.2]

theorem ofNat_succ_frame (k : Nat) :
    BitVec.ofNat 32 (8 * (k + 1)) = BitVec.ofNat 32 (8 * k) + 8 := by
  rw [Nat.mul_succ, BitVec.ofNat_add]
  rfl

/-- The base that counts for the sample in the register. -/
theorem baseNow_eq (h : s.frameBase = BitVec.ofNat 32 (8 * k)) (hvld : s.sampVld = true) :
    baseNow s = BitVec.ofNat 32 (8 * if first s then k + 1 else k) := by
  rw [baseNow, newBase, h, hvld, Bool.true_and]
  cases first s with
  | false => rfl
  | true => exact (ofNat_succ_frame k).symm

/-- The write port is on the grid. -/
theorem attempt_eq (i : Input) (h : s.frameBase = BitVec.ofNat 32 (8 * k)) :
    attempt s i = grid k (offer s i) := by
  rw [attempt, offer, registered]
  cases hvld : s.sampVld with
  | false => rfl
  | true =>
      have haddr : (wrAddr s).toNat % sringDepth =
          (8 * (if first s then k + 1 else k) + chanNr s % 8) % sringDepth := by
        rw [wrAddr, baseNow_eq h hvld, BitVec.toNat_add, BitVec.toNat_ofNat, BitVec.toNat_ofNat]
        show _ % 2048 = _ % 2048
        generalize (if first s then k + 1 else k) = frame
        have hwithin : within s = chanNr s % 8 := rfl
        omega
      simp only [if_pos, List.map_cons, List.map_nil, grid, haddr]
      rfl

theorem frameBase_step (h : s.frameBase = BitVec.ofNat 32 (8 * k)) (i : Input) :
    (step s i).frameBase = BitVec.ofNat 32 (8 * frameOf k (registered s)) := by
  show nextFrameBase s = _
  rw [nextFrameBase, frameBegin, newBase, registered, h]
  cases s.sampVld with
  | false => rfl
  | true =>
      cases hfirst : first s with
      | false => simp [frameOf]
      | true =>
          have hone : frameOf k [⟨chanNr s, true, s.sampLoR⟩] = k + 1 := rfl
          rw [if_pos rfl, hone, ofNat_succ_frame]
          exact if_pos (by simp)

end Cycle

/-! ## Whole runs -/

/-- The samples offered to the ring on the inputs `is`, from reset, with what became of each. -/
def offered (is : List Input) : List (Sample × Bool) := emitted step offer State.reset is

theorem grid_append (k : Nat) (os os' : List (Sample × Bool)) :
    grid k (os ++ os') = grid k os ++ grid (frameOf k (os.map Prod.fst)) os' := by
  induction os generalizing k with
  | nil => rfl
  | cons o os ih =>
      have hframe : frameOf (if o.1.marker then k + 1 else k) (os.map Prod.fst) =
          frameOf k ((o :: os).map Prod.fst) := by
        rw [frameOf, frameOf, List.map_cons, List.countP_cons]
        split <;> omega
      rw [List.cons_append, grid, ih, grid, List.cons_append, hframe]

theorem frameOf_append (k : Nat) (xs ys : List Sample) :
    frameOf k (xs ++ ys) = frameOf (frameOf k xs) ys := by
  rw [frameOf, frameOf, frameOf, List.countP_append, Nat.add_assoc]

/-- Every sample passes the ingress register, one cycle late. -/
theorem samples_run (is : List Input) : ∀ s : State,
    registered s ++ is.flatMap Input.sample =
      (emitted step offer s is).map Prod.fst ++ registered (run step s is) := by
  induction is with
  | nil => exact fun s => List.append_nil _
  | cons i is ih =>
      intro s
      have hoffer : (offer s i).map Prod.fst = registered s := by
        rw [offer, List.map_map]
        exact List.map_id _
      have hrest := ih (step s i)
      rw [registered_step] at hrest
      rw [List.flatMap_cons, hrest, emitted, List.map_append, hoffer, run_cons, List.append_assoc]

/-- The write port keeps to the grid, and the frame base to its frames. -/
theorem grid_run (is : List Input) : ∀ {s : State} {k : Nat},
    s.frameBase = BitVec.ofNat 32 (8 * k) →
      emitted step attempt s is = grid k (emitted step offer s is) ∧
        (run step s is).frameBase =
          BitVec.ofNat 32 (8 * frameOf k ((emitted step offer s is).map Prod.fst)) := by
  induction is with
  | nil => exact fun h => ⟨rfl, h⟩
  | cons i is ih =>
      intro s k h
      have hoffer : (offer s i).map Prod.fst = registered s := by
        rw [offer, List.map_map]
        exact List.map_id _
      obtain ⟨hgrid, hbase⟩ := ih (frameBase_step h i)
      rw [emitted, emitted, grid_append, List.map_append, frameOf_append, hoffer, attempt_eq i h,
        hgrid, run_cons]
      exact ⟨rfl, hbase⟩

/-- What the rings hold is what was written into them. -/
theorem rings_run (is : List Input) (s : State) :
    rings (run step s is) = deposited (rings s) (emitted step attempt s is) := by
  have hall : Along step (fun _ _ => True) s is := Along.of_forall (fun _ _ => trivial) is s
  have hview : ∀ (s : State) (i : Input), True → True →
      rings (step s i) = (attempt s i).foldl deposit (rings s) := fun s i _ _ => rings_step s i
  exact hall.replay (fun _ _ _ _ => trivial) hview trivial

/-! ## The law of the grid -/

/-- An entry of one of the rings there are. -/
def Entry (x : Nat × Nat) : Prop := x.1 < streams ∧ x.2 < sringDepth

/-- The samples of a run and the rings after it. -/
structure OnGrid (is : List Input) : Prop where
  /-- Every sample is offered, in order, whatever became of the ones before it; the newest may
  still be in the ingress register. -/
  inOrder : is.flatMap Input.sample =
    (offered is).map Prod.fst ++ registered (run step State.reset is)
  /-- Frame `k` begins at the `k`-th marker, and its base is `8 * k`. -/
  base : (run step State.reset is).frameBase =
    BitVec.ofNat 32 (channels * frameOf 0 ((offered is).map Prod.fst))
  /-- A sample that is taken is written at its channel of the frame. -/
  taken : ∀ js i x, is = js ++ [i] → (x, true) ∈ offer (run step State.reset js) i →
    Entry (slotOf (frameOf 0 ((offered is).map Prod.fst)) x.channel) →
      rings (run step State.reset is) (slotOf (frameOf 0 ((offered is).map Prod.fst)) x.channel) =
        packed x.audio
  /-- A sample that is dropped changes nothing. -/
  dropped : ∀ js i x, is = js ++ [i] → (x, false) ∈ offer (run step State.reset js) i →
    rings (run step State.reset is) = rings (run step State.reset js)
  /-- The rings hold what was taken, each sample at its place … -/
  content : ∀ e, Entry e →
    rings (run step State.reset is) e = deposited (fun _ => 0) (grid 0 (offered is)) e
  /-- … which depends on the samples alone, not on what was dropped. -/
  places : (grid 0 (offered is)).map Attempt.slot = slots 0 ((offered is).map Prod.fst)
  /-- An entry whose last sample was taken is as if nothing had been dropped. -/
  fresh : ∀ e, Entry e → ¬ Stale (grid 0 (offered is)) e → rings (run step State.reset is) e =
    deposited (fun _ => 0) ((grid 0 (offered is)).map Attempt.take) e
  /-- No entry ever holds a sample of another channel. -/
  channel : ∀ e, Entry e → rings (run step State.reset is) e = 0 ∨
    ∃ x, (x, true) ∈ offered is ∧ x.channel = channels * e.1 + e.2 % channels ∧
      rings (run step State.reset is) e = packed x.audio

theorem rings_offered (is : List Input) : rings (run step State.reset is) =
    deposited (fun _ => 0) (grid 0 (offered is)) := by
  rw [rings_run, (grid_run is (s := State.reset) (k := 0) rfl).1]
  rfl

theorem offered_concat (is : List Input) (i : Input) :
    offered (is ++ [i]) = offered is ++ offer (run step State.reset is) i :=
  emitted_concat step offer State.reset is i

/-- One sample is offered in a cycle at most. -/
theorem offer_eq {s : State} {i : Input} {o : Sample × Bool} (h : o ∈ offer s i) :
    offer s i = [o] := by
  rw [offer, registered] at h ⊢
  cases hvld : s.sampVld with
  | false =>
      rw [hvld] at h
      exact absurd h List.not_mem_nil
  | true =>
      rw [hvld] at h
      rw [List.mem_singleton.1 h]
      rfl

/-- The last cycle of a run, in which a sample is offered. -/
theorem rings_concat {is : List Input} {i : Input} {x : Sample} {t : Bool}
    (h : (x, t) ∈ offer (run step State.reset is) i) :
    rings (run step State.reset (is ++ [i])) = deposit (rings (run step State.reset is))
      ⟨slotOf (frameOf 0 ((offered (is ++ [i])).map Prod.fst)) x.channel, packed x.audio, t⟩ := by
  have hone : frameOf 0 ((offered (is ++ [i])).map Prod.fst) =
      if x.marker then frameOf 0 ((offered is).map Prod.fst) + 1
      else frameOf 0 ((offered is).map Prod.fst) := by
    rw [offered_concat, offer_eq h, List.map_append, frameOf_append, List.map_singleton, frameOf]
    cases hm : x.marker <;> simp [hm]
  rw [hone, rings_offered, rings_offered, offered_concat, offer_eq h, grid_append, deposited,
    List.foldl_append]
  rfl

/-- The law holds of every run, whatever the rings had to drop. -/
theorem ring_addressing (is : List Input) : OnGrid is := by
  have hgrid := grid_run is (s := State.reset) (k := 0) rfl
  refine ⟨samples_run is State.reset, hgrid.2, ?_, ?_, fun e _ => congrFun (rings_offered is) e,
    slot_grid 0 _, fun e _ hfresh => ?_, fun e _ => ?_⟩
  · rintro js i x rfl hx -
    rw [rings_concat hx]
    exact deposit_of_taken _ rfl
  · rintro js i x rfl hx
    rw [rings_concat hx]
    exact deposit_of_dropped _ rfl
  · rw [rings_offered]
    exact deposited_eq_full hfresh
  · rw [rings_offered]
    rcases deposited_origin (fun _ => 0) (grid 0 (offered is)) e with hreset | hwritten
    · exact .inl hreset
    · obtain ⟨w, hw, hslot, htaken, hvalue⟩ := hwritten
      obtain ⟨x, frame, hx, hplace, haudio⟩ := mem_grid hw
      rw [htaken] at hx
      exact .inr ⟨x, hx, channel_of_slot (hplace.symm.trans hslot), hvalue.trans haudio⟩

end Packetizer
end InfernoFpga
