import InfernoFpga.Lib.LastMax
import InfernoFpga.Firmware.Binds
import Mathlib.Data.Finset.Max
import Mathlib.Data.Fintype.Basic
import Mathlib.Algebra.Group.Int.Defs

/-!
# Eviction — which flow makes room when the table is full?

Two loops choose a victim by age, the difference of the uptime clock and the slot's last bind.
`dante_tx_bind_unicast` scans the unicast slots first; `dante_tx_bind_multicast` scans them all,
and cuts ages at one hour.  The uptime is derived from a clock that is stepped and adjusted.
Beside the table an observer counts the binds, so that "least recently bound" needs no clock.
-/

namespace InfernoFpga
namespace Firmware

open Lib
open Packetizer (CtxId)

/-! ## The uptime clock -/

/-- The time of the timestamp unit in nanoseconds, and `gptp_uptime_bias_ms`. -/
structure UptimeClock where
  tsu : Int
  biasMs : Int

namespace UptimeClock

def seconds (c : UptimeClock) : Int := c.tsu / 1000000000
def nanoseconds (c : UptimeClock) : Int := c.tsu % 1000000000

def rawMs (c : UptimeClock) : Int := c.seconds * 1000 + c.nanoseconds / 1000000

/-- The uptime before it is cut to 32 bits. -/
def uptime (c : UptimeClock) : Int := c.rawMs - c.biasMs

/-- The cast to `uint32_t`. -/
def cut32 (ms : Int) : UInt32 := UInt32.ofNat (ms % 2 ^ 32).toNat

/-- `gptp_uptime_ms`. -/
def gptpUptimeMs (c : UptimeClock) : UInt32 := cut32 c.uptime

def tick (c : UptimeClock) (ns : Nat) : UptimeClock := { c with tsu := c.tsu + ns }

/-- `gptp_step_time`: the jump goes into the bias. -/
def gptpStepTime (c : UptimeClock) (seconds nanoseconds : Int) : UptimeClock :=
  let targetMs := seconds * 1000 + nanoseconds / 1000000
  { tsu := seconds * 1000000000 + nanoseconds, biasMs := c.biasMs + (targetMs - c.rawMs) }

/-- `gptp_adjust_offset`; the bias does not follow. -/
def gptpAdjustOffset (c : UptimeClock) (offsetNs : Int) : UptimeClock :=
  { c with tsu := c.tsu + offsetNs }

theorem rawMs_eq (c : UptimeClock) : c.rawMs = c.tsu / 1000000 := by
  simp only [rawMs, seconds, nanoseconds]
  omega

/-- A step does not show in the uptime … -/
theorem uptime_gptpStepTime (c : UptimeClock) (seconds nanoseconds : Int) :
    (c.gptpStepTime seconds nanoseconds).uptime = c.uptime := by
  have htarget : (c.gptpStepTime seconds nanoseconds).rawMs =
      seconds * 1000 + nanoseconds / 1000000 := by
    rw [rawMs_eq]
    simp only [gptpStepTime]
    omega
  rw [uptime, htarget]
  simp only [gptpStepTime, uptime]
  omega

/-- … and an adjustment by whole milliseconds shows in full. -/
theorem uptime_gptpAdjustOffset (c : UptimeClock) (ms : Int) :
    (c.gptpAdjustOffset (ms * 1000000)).uptime = c.uptime + ms := by
  simp only [uptime, rawMs_eq, gptpAdjustOffset]
  omega

/-- Less than 2³² ms apart, two readings differ by the time between them. -/
theorem toNat_cut32_sub {now last : Int} (h₀ : last ≤ now) (h : now < last + 2 ^ 32) :
    ((cut32 now - cut32 last).toNat : Int) = now - last := by
  rw [UInt32.toNat_sub]
  simp only [cut32, UInt32.toNat_ofNat']
  omega

end UptimeClock

/-! ## The two scans -/

/-- `now_ms - flows[i].last_ms`. -/
def age (t : Tx) (now : UInt32) (f : CtxId) : UInt32 := now - (t.flows f).lastMs

/-- The age `dante_tx_bind_multicast` goes by. -/
def cutAge (t : Tx) (now : UInt32) (f : CtxId) : UInt32 :=
  if 3600000 < age t now f then 3600000 else age t now f

/-- The contexts the eviction is to choose from: the unicast ones, or all if there are none. -/
def Eligible (t : Tx) (f : CtxId) : Prop :=
  (∃ g, (t.flows g).mcast = false) → (t.flows f).mcast = false

/-- The scan compares 32-bit ages as numbers. -/
theorem older_scan (key : CtxId → UInt32) (xs : List CtxId) (best : CtxId) :
    (xs.foldl (older key) (key best, best)).2 =
      (xs.foldl (scanStep fun f => (key f).toNat) ((key best).toNat, best)).2 := by
  have hstep : ∀ (acc : UInt32 × CtxId) (i : CtxId),
      scanStep (fun f => (key f).toNat) (acc.1.toNat, acc.2) i =
        ((older key acc i).1.toNat, (older key acc i).2) := by
    intro acc i
    unfold scanStep older
    by_cases hle : acc.1 ≤ key i
    · rw [if_pos hle, if_pos (UInt32.le_iff_toNat_le.1 hle)]
    · rw [if_neg hle, if_neg (mt UInt32.le_iff_toNat_le.2 hle)]
  have hfold : xs.foldl (scanStep fun f => (key f).toNat) ((key best).toNat, best) =
      ((xs.foldl (older key) (key best, best)).1.toNat,
        (xs.foldl (older key) (key best, best)).2) :=
    @List.foldl_hom (UInt32 × CtxId) (Nat × CtxId) CtxId (fun acc => (acc.1.toNat, acc.2))
      (older key) (scanStep fun f => (key f).toNat) xs (key best, best) hstep
  exact (congrArg Prod.snd hfold).symm

/-- The scan for the oldest unicast slot is a scan of the unicast slots. -/
theorem olderUnicast_scan (t : Tx) (now : UInt32) (xs : List CtxId) :
    (xs.foldl (olderUnicast t now) (0, none)).2 =
      match xs.filter fun f => !(t.flows f).mcast with
      | [] => none
      | best :: rest => some (rest.foldl (older (age t now)) (age t now best, best)).2 := by
  have hskip : ∀ (acc : UInt32 × Option CtxId), xs.foldl (olderUnicast t now) acc =
      (xs.filter fun f => !(t.flows f).mcast).foldl (olderUnicast t now) acc := by
    intro acc
    rw [List.foldl_filter]
    congr 1
    funext acc' i
    unfold olderUnicast
    cases (t.flows i).mcast <;> rfl
  -- once there is a candidate, the scan is that of `older`
  have hsome : ∀ (ys : List CtxId) (acc : UInt32 × CtxId),
      (∀ i ∈ ys, (t.flows i).mcast = false) →
        ys.foldl (olderUnicast t now) (acc.1, some acc.2) =
          ((ys.foldl (older (age t now)) acc).1, some (ys.foldl (older (age t now)) acc).2) := by
    intro ys
    induction ys with
    | nil => intro acc _; rfl
    | cons i ys ih =>
        intro acc hys
        have hi := hys i List.mem_cons_self
        have hstep : olderUnicast t now (acc.1, some acc.2) i =
            ((older (age t now) acc i).1, some (older (age t now) acc i).2) := by
          simp only [olderUnicast, older, hi, Bool.false_eq_true, if_false, Option.isNone_some,
            Bool.false_or, decide_eq_true_eq]
          by_cases hle : acc.1 ≤ age t now i
          · rw [if_pos hle, if_pos (show acc.1 ≤ now - (t.flows i).lastMs from hle)]
            rfl
          · rw [if_neg hle, if_neg (show ¬ acc.1 ≤ now - (t.flows i).lastMs from hle)]
        rw [List.foldl_cons, List.foldl_cons, hstep]
        exact ih (older (age t now) acc i) fun j hj => hys j (List.mem_cons_of_mem i hj)
  rw [hskip]
  have hunicast : ∀ i ∈ xs.filter fun f => !(t.flows f).mcast, (t.flows i).mcast = false := by
    intro i hi
    simpa using (List.mem_filter.1 hi).2
  cases hys : xs.filter fun f => !(t.flows f).mcast with
  | nil => rfl
  | cons best rest =>
      rw [hys] at hunicast
      have hbest := hunicast best List.mem_cons_self
      have hfirst : olderUnicast t now (0, none) best = (age t now best, some best) := by
        simp only [olderUnicast, age, hbest, Bool.false_eq_true, if_false, Option.isNone_none,
          Bool.true_or, if_true]
      rw [List.foldl_cons, hfirst,
        hsome rest (age t now best, best) fun i hi => hunicast i (List.mem_cons_of_mem best hi)]

/-- The scan of all slots. -/
theorem older_all (key : CtxId → UInt32) :
    LastMax (fun f => (key f).toNat) (fun _ => True)
      ((List.finRange nFlows).foldl (older key) (0, 0)).2 := by
  have hall : List.finRange nFlows = 0 :: [1, 2, 3, 4, 5] := by decide
  have hfirst : older key (0, 0) 0 = (key 0, 0) := if_pos (UInt32.le_iff_toNat_le.2 (Nat.zero_le _))
  rw [hall, List.foldl_cons, hfirst, older_scan]
  refine (scan_lastMax (fun f => (key f).toNat) [1, 2, 3, 4, 5] (by decide)).congr fun v => ?_
  exact iff_of_true (by revert v; decide) trivial

/-- The victim of a unicast bind is the last of the oldest of those it has to choose from. -/
theorem unicastVictim_lastMax (t : Tx) (now : UInt32) :
    LastMax (fun f => (age t now f).toNat) (Eligible t) (unicastVictim t now) := by
  unfold unicastVictim
  rw [olderUnicast_scan]
  have hmem : ∀ v, v ∈ (List.finRange nFlows).filter (fun f => !(t.flows f).mcast) ↔
      (t.flows v).mcast = false := by
    intro v
    simp only [List.mem_filter, List.mem_finRange, true_and, Bool.not_eq_true']
  have hsorted := (List.pairwise_lt_finRange nFlows).filter fun f => !(t.flows f).mcast
  cases hys : (List.finRange nFlows).filter fun f => !(t.flows f).mcast with
  | nil =>
      rw [hys] at hmem
      refine (older_all (age t now)).congr fun v => iff_of_true trivial ?_
      rintro ⟨g, hg⟩
      exact absurd ((hmem g).2 hg) List.not_mem_nil
  | cons best rest =>
      rw [hys] at hmem hsorted
      dsimp only
      rw [older_scan]
      refine (scan_lastMax (fun f => (age t now f).toNat) rest hsorted).congr fun v => ?_
      rw [hmem]
      exact ⟨fun hv _ => hv, fun hv => hv ⟨best, (hmem best).1 List.mem_cons_self⟩⟩

/-- The victim of a multicast bind is the last of the oldest of all, by the ages it cuts. -/
theorem multicastVictim_lastMax (t : Tx) (now : UInt32) :
    LastMax (fun f => (cutAge t now f).toNat) (fun _ => True) (multicastVictim t now) :=
  older_all (cutAge t now)

/-! ## Table, clock and an observer of the binds -/

structure Timed where
  tx : Tx
  clock : UptimeClock

/-- Operations on the table and the clock.  A bind reads the uptime from the clock. -/
inductive TimedOp
  | tick (ns : Nat)
  | stepTime (seconds nanoseconds : Int)
  | adjustOffset (ns : Int)
  | unicast (r : UnicastReq) (dmac : Option Mac) (reads : Nat → Nat × Nat)
  | multicast (extId : BitVec 16) (chans : Fin 8 → BitVec 16) (n : SlotCount)
      (reads : Nat → Nat × Nat)
  | unbind (f : CtxId)
  | dropAll
  | init
  | reseed (sub : Nat)
  | talker (on : Bool)
  | setMcastFpp (fpp : Fpp)

def timedStep (s : Timed) : TimedOp → Timed
  | .tick ns => { s with clock := s.clock.tick ns }
  | .stepTime seconds nanoseconds => { s with clock := s.clock.gptpStepTime seconds nanoseconds }
  | .adjustOffset ns => { s with clock := s.clock.gptpAdjustOffset ns }
  | .unicast r dmac reads =>
      { s with tx := txStep s.tx (.unicast r dmac s.clock.gptpUptimeMs reads) }
  | .multicast extId chans n reads =>
      { s with tx := txStep s.tx (.multicast extId chans n s.clock.gptpUptimeMs reads) }
  | .unbind f => { s with tx := txStep s.tx (.unbind f) }
  | .dropAll => { s with tx := txStep s.tx .dropAll }
  | .init => { s with tx := txStep s.tx .init }
  | .reseed sub => { s with tx := txStep s.tx (.reseed sub) }
  | .talker on => { s with tx := txStep s.tx (.talker on) }
  | .setMcastFpp fpp => { s with tx := txStep s.tx (.setMcastFpp fpp) }

/-- How many binds and refreshes there have been; which one each context had last, and the uptime
it was made at. -/
structure BindLog where
  binds : Nat
  bound : CtxId → Nat
  madeAt : CtxId → Int

def BindLog.note (b : BindLog) (f : CtxId) (uptime : Int) : BindLog where
  binds := b.binds + 1
  bound := Function.update b.bound f (b.binds + 1)
  madeAt := Function.update b.madeAt f uptime

theorem BindLog.note_self (b : BindLog) (f : CtxId) (uptime : Int) :
    (b.note f uptime).bound f = b.binds + 1 ∧ (b.note f uptime).madeAt f = uptime := by
  simp [BindLog.note]

theorem BindLog.note_other (b : BindLog) {f g : CtxId} (uptime : Int) (hg : g ≠ f) :
    (b.note f uptime).bound g = b.bound g ∧ (b.note f uptime).madeAt g = b.madeAt g := by
  simp [BindLog.note, hg]

/-- The observer notes the context each bind returns. -/
def observeBind (s : Timed) (op : TimedOp) (b : BindLog) : BindLog :=
  match op with
  | .unicast r (some dmac) reads =>
      b.note (bindUnicast s.tx r dmac s.clock.gptpUptimeMs reads).2 s.clock.uptime
  | .multicast extId chans n reads =>
      b.note (bindMulticast s.tx extId chans n s.clock.gptpUptimeMs reads).2 s.clock.uptime
  | _ => b

/-- Table, clock and bind log after `ops`. -/
def timedAfter (netIp : Ip) (mac : Mac) (ops : List TimedOp) : Timed × BindLog :=
  run (watch timedStep observeBind)
    (⟨danteTxInit (Tx.boot netIp mac), ⟨0, 0⟩⟩, ⟨0, fun _ => 0, fun _ => 0⟩) ops

/-! ## The bind log tells the contexts apart -/

/-- The log is about the table: no two contexts in use were bound last by the same bind, and a
slot's time is the uptime of that bind. -/
structure Logged (t : Tx) (b : BindLog) : Prop where
  le : ∀ f, b.bound f ≤ b.binds
  inj : ∀ f g, (t.flows f).inUse = true → (t.flows g).inUse = true → b.bound f = b.bound g → f = g
  dated : ∀ f, (t.flows f).inUse = true → (t.flows f).lastMs = UptimeClock.cut32 (b.madeAt f)

/-- An operation after which every slot in use is as it was. -/
theorem Logged.of_kept {t t' : Tx} {b : BindLog} (h : Logged t b)
    (hkept : ∀ f, (t'.flows f).inUse = true → t'.flows f = t.flows f) : Logged t' b := by
  refine ⟨h.le, fun f g hf hg => ?_, fun f hf => ?_⟩
  · have hf' := hf
    have hg' := hg
    rw [hkept f hf] at hf'
    rw [hkept g hg] at hg'
    exact h.inj f g hf' hg'
  · have hf' := hf
    rw [hkept f hf] at hf' ⊢
    exact h.dated f hf'

theorem Logged.note {t t' : Tx} {b : BindLog} {f : CtxId} {uptime : Int} (h : Logged t b)
    (hr : Rewrites t t' f) (hms : (t'.flows f).lastMs = UptimeClock.cut32 uptime) :
    Logged t' (b.note f uptime) := by
  have hself := b.note_self f uptime
  have hnew : ∀ g, g ≠ f → (b.note f uptime).bound g ≠ (b.note f uptime).bound f := by
    intro g hg
    rw [hself.1, (b.note_other uptime hg).1]
    exact ne_of_lt (Nat.lt_succ_of_le (h.le g))
  refine ⟨fun g => ?_, fun g k hguse hkuse hgk => ?_, fun g hguse => ?_⟩
  · by_cases hg : g = f
    · rw [hg, hself.1]
      rfl
    · rw [(b.note_other uptime hg).1]
      exact Nat.le_succ_of_le (h.le g)
  · by_cases hg : g = f
    · by_cases hk : k = f
      · exact hg.trans hk.symm
      · subst hg
        exact absurd hgk.symm (hnew k hk)
    · by_cases hk : k = f
      · subst hk
        exact absurd hgk (hnew g hg)
      · rw [hr.flows g hg] at hguse
        rw [hr.flows k hk] at hkuse
        rw [(b.note_other uptime hg).1, (b.note_other uptime hk).1] at hgk
        exact h.inj g k hguse hkuse hgk
  · by_cases hg : g = f
    · subst hg
      rw [hself.2, hms]
    · rw [hr.flows g hg] at hguse ⊢
      rw [(b.note_other uptime hg).2]
      exact h.dated g hguse

theorem kept_unbind (t : Tx) (f g : CtxId) (h : ((unbind t f).flows g).inUse = true) :
    (unbind t f).flows g = t.flows g := by
  by_cases hg : g = f
  · rw [hg, inUse_unbind] at h
    cases h
  · exact (rewrites_unbind t f).flows g hg

theorem logged_timedStep {s : Timed} {b : BindLog} (op : TimedOp) (h : Logged s.tx b) :
    Logged (timedStep s op).tx (observeBind s op b) := by
  cases op with
  | unicast r dmac reads =>
      cases dmac with
      | none => exact h
      | some dmac =>
          have hbound := bindUnicast_bound s.tx r dmac s.clock.gptpUptimeMs reads
          exact h.note hbound.rewrites hbound.serves.lastMs
  | multicast extId chans n reads =>
      have hbound := bindMulticast_bound s.tx extId chans n s.clock.gptpUptimeMs reads
      exact h.note hbound.rewrites hbound.lastMs
  | unbind f => exact h.of_kept (kept_unbind s.tx f)
  | dropAll =>
      exact run_invariant unbind (P := fun t => Logged t b)
        (fun t f ht => ht.of_kept (kept_unbind t f)) (List.finRange nFlows) h
  | init => exact h.of_kept fun f _ => congrFun (flows_danteTxInit s.tx) f
  | reseed sub => exact h.of_kept fun f _ => congrFun (flows_reseedPhases s.tx sub) f
  | talker on => exact h.of_kept fun f _ => congrFun (flows_aafGwSet s.tx on) f
  | setMcastFpp fpp => exact h.of_kept fun _ _ => rfl
  | tick ns => exact h
  | stepTime seconds nanoseconds => exact h
  | adjustOffset ns => exact h

theorem logged_timedAfter (netIp : Ip) (mac : Mac) (ops : List TimedOp) :
    Logged (timedAfter netIp mac ops).1.tx (timedAfter netIp mac ops).2 := by
  have hidle : ∀ f, ((danteTxInit (Tx.boot netIp mac)).flows f).inUse = false := by
    intro f
    rw [flows_danteTxInit]
    rfl
  refine run_invariant (watch timedStep observeBind) (P := fun p => Logged p.1.tx p.2)
    (fun p op h => logged_timedStep op h) ops
    ⟨fun _ => Nat.zero_le _, fun f g hf => ?_, fun f hf => ?_⟩
  · rw [hidle f] at hf
    cases hf
  · rw [hidle f] at hf
    cases hf

/-! ## The right victim -/

/-- Every context is taken. -/
def Full (t : Tx) : Prop := ∀ f, (t.flows f).inUse = true

/-- Of the contexts to choose from, the one that was bound or refreshed first. -/
def LeastRecent (t : Tx) (b : BindLog) (f : CtxId) : Prop :=
  Eligible t f ∧ ∀ g, Eligible t g → b.bound f ≤ b.bound g

/-- A bind into a full table evicts the right context, and it alone: every other context is as
it was, in the table and in the gateware, and the slot now answers to the request. -/
structure EvictsRight (t : Tx) (b : BindLog) (serves : FlowSlot → Bool) (res : Tx × CtxId) :
    Prop where
  others : Rewrites t res.1 res.2
  evicted : serves (t.flows res.2) = false
  bound : serves (res.1.flows res.2) = true
  victim : LeastRecent t b res.2

/-- The ages of the contexts in `S` put the least recent of the eligible ones last. -/
def AgesAgree (t : Tx) (b : BindLog) (key : CtxId → UInt32) (S : CtxId → Prop) : Prop :=
  ∀ f, LeastRecent t b f →
    S f ∧ ∀ g, S g → g ≠ f → key g < key f ∨ key g = key f ∧ g < f

section Victim

variable {t : Tx} {b : BindLog}

theorem exists_leastRecent (t : Tx) (b : BindLog) : ∃ f, LeastRecent t b f := by
  have hsome : ∃ f, Eligible t f := by
    by_cases h : ∃ g, (t.flows g).mcast = false
    · exact h.imp fun g hg _ => hg
    · exact ⟨0, fun hg => absurd hg h⟩
  classical
  have hnonempty : (Finset.univ.filter fun f => Eligible t f).Nonempty :=
    hsome.imp fun f hf => Finset.mem_filter.2 ⟨Finset.mem_univ f, hf⟩
  obtain ⟨f, hf, hmin⟩ := Finset.exists_min_image _ b.bound hnonempty
  exact ⟨f, (Finset.mem_filter.1 hf).2,
    fun g hg => hmin g (Finset.mem_filter.2 ⟨Finset.mem_univ g, hg⟩)⟩

theorem leastRecent_unique (h : Logged t b) (hfull : Full t) {f g : CtxId}
    (hf : LeastRecent t b f) (hg : LeastRecent t b g) : f = g :=
  h.inj f g (hfull f) (hfull g) (le_antisymm (hf.2 g hg.1) (hg.2 f hf.1))

/-- The last of the oldest is the least recent exactly if the ages agree with the binds. -/
theorem leastRecent_iff_agesAgree (h : Logged t b) (hfull : Full t) {key : CtxId → UInt32}
    {S : CtxId → Prop} {v : CtxId} (hv : LastMax (fun f => (key f).toNat) S v) :
    LeastRecent t b v ↔ AgesAgree t b key S := by
  constructor
  · intro hleast f hf
    have hfv : f = v := leastRecent_unique h hfull hf hleast
    subst hfv
    refine ⟨hv.mem, fun g hg hne => ?_⟩
    rcases hv.beats g hg with hlt | ⟨heq, hle⟩
    · exact Or.inl (UInt32.lt_iff_toNat_lt.2 hlt)
    · exact Or.inr ⟨UInt32.toNat_inj.1 heq, lt_of_le_of_ne hle hne⟩
  · intro hages
    obtain ⟨f, hf⟩ := exists_leastRecent t b
    obtain ⟨hmem, hbeats⟩ := hages f hf
    have hlast : LastMax (fun f => (key f).toNat) S f := by
      refine ⟨hmem, fun g hg => ?_⟩
      by_cases hne : g = f
      · exact Or.inr ⟨by rw [hne], le_of_eq hne⟩
      · rcases hbeats g hg hne with hlt | ⟨heq, hlt⟩
        · exact Or.inl (UInt32.lt_iff_toNat_lt.1 hlt)
        · exact Or.inr ⟨by rw [heq], le_of_lt hlt⟩
    rw [hv.unique hlast]
    exact hf

theorem findFree_full (hfull : Full t) : (findFlow t fun s => !s.inUse) = none := by
  cases h : findFlow t fun s => !s.inUse with
  | none => rfl
  | some f =>
      have hidle := findFlow_some h
      rw [hfull f] at hidle
      cases hidle

/-- A unicast request that matches nothing. -/
theorem evictsRight_unicast (h : Logged t b) (hfull : Full t) {r : UnicastReq} {now : UInt32}
    (hnew : findFlow t (sameSocket r) = none) (dmac : Mac) (reads : Nat → Nat × Nat) :
    EvictsRight t b (sameSocket r) (bindUnicast t r dmac now reads) ↔
      AgesAgree t b (age t now) (Eligible t) := by
  have hbound := bindUnicast_bound t r dmac now reads
  have htarget : (bindUnicast t r dmac now reads).2 = unicastVictim t now := by
    rw [hbound.target]
    simp only [unicastTarget, hnew, findFree_full hfull]
  rw [← leastRecent_iff_agesAgree h hfull (unicastVictim_lastMax t now), ← htarget]
  exact ⟨fun he => he.victim, fun hv => ⟨hbound.rewrites, findFlow_none hnew _,
    sameSocket_iff.2 ⟨hbound.serves.inUse, hbound.serves.dport, hbound.serves.peer,
      hbound.serves.dst⟩, hv⟩⟩

/-- A multicast request under a new id. -/
theorem evictsRight_multicast (h : Logged t b) (hfull : Full t) {extId : BitVec 16}
    {now : UInt32} (hnew : findFlow t (sameId extId) = none) (chans : Fin 8 → BitVec 16)
    (n : SlotCount) (reads : Nat → Nat × Nat) :
    EvictsRight t b (sameId extId) (bindMulticast t extId chans n now reads) ↔
      AgesAgree t b (cutAge t now) fun _ => True := by
  have hbound := bindMulticast_bound t extId chans n now reads
  have htarget : (bindMulticast t extId chans n now reads).2 = multicastVictim t now := by
    rw [hbound.target]
    simp only [multicastTarget, hnew, findFree_full hfull]
  rw [← leastRecent_iff_agesAgree h hfull (multicastVictim_lastMax t now), ← htarget]
  refine ⟨fun he => he.victim, fun hv => ⟨hbound.rewrites, findFlow_none hnew _, ?_, hv⟩⟩
  simp only [sameId, hbound.inUse, hbound.mcast, hbound.extId, Bool.and_self, BEq.rfl]

end Victim

/-! ## A steady clock -/

/-- The clock has moved between any two binds, has not run back since, and no context has been
bound for 2³² ms. -/
structure SteadyClock (b : BindLog) (uptime : Int) : Prop where
  moved : ∀ f g, b.bound f < b.bound g → b.madeAt f < b.madeAt g
  past : ∀ f, b.madeAt f ≤ uptime
  recent : ∀ f, uptime < b.madeAt f + 2 ^ 32

/-- With a steady clock the ages are in the order of the binds. -/
theorem agesAgree_of_steady {t : Tx} {b : BindLog} {c : UptimeClock} (h : Logged t b)
    (hfull : Full t) (hs : SteadyClock b c.uptime) :
    AgesAgree t b (age t c.gptpUptimeMs) (Eligible t) := by
  intro f hf
  refine ⟨hf.1, fun g hg hne => Or.inl (UInt32.lt_iff_toNat_lt.2 ?_)⟩
  have hage : ∀ k, ((age t c.gptpUptimeMs k).toNat : Int) = c.uptime - b.madeAt k := by
    intro k
    rw [age, h.dated k (hfull k)]
    exact UptimeClock.toNat_cut32_sub (hs.past k) (hs.recent k)
  have hbound : b.bound f < b.bound g :=
    lt_of_le_of_ne (hf.2 g hg) fun heq => hne (h.inj g f (hfull g) (hfull f) heq.symm)
  have hmoved := hs.moved f g hbound
  have hageF := hage f
  have hageG := hage g
  omega

/-! ## Every run -/

/-- In every run that has filled the table, whatever the clock went through: a unicast request
that matches nothing evicts the right context exactly if the ages of the eligible contexts put
the least recent one last, a multicast request exactly if the cut ages of all of them do. -/
theorem eviction_choice (netIp : Ip) (mac : Mac) (ops : List TimedOp)
    (hfull : Full (timedAfter netIp mac ops).1.tx) :
    (∀ r dmac reads,
        findFlow (timedAfter netIp mac ops).1.tx (sameSocket r) = none →
        (EvictsRight (timedAfter netIp mac ops).1.tx (timedAfter netIp mac ops).2 (sameSocket r)
            (bindUnicast (timedAfter netIp mac ops).1.tx r dmac
              (timedAfter netIp mac ops).1.clock.gptpUptimeMs reads) ↔
          AgesAgree (timedAfter netIp mac ops).1.tx (timedAfter netIp mac ops).2
            (age (timedAfter netIp mac ops).1.tx (timedAfter netIp mac ops).1.clock.gptpUptimeMs)
            (Eligible (timedAfter netIp mac ops).1.tx))) ∧
      ∀ extId chans n reads,
        findFlow (timedAfter netIp mac ops).1.tx (sameId extId) = none →
        (EvictsRight (timedAfter netIp mac ops).1.tx (timedAfter netIp mac ops).2 (sameId extId)
            (bindMulticast (timedAfter netIp mac ops).1.tx extId chans n
              (timedAfter netIp mac ops).1.clock.gptpUptimeMs reads) ↔
          AgesAgree (timedAfter netIp mac ops).1.tx (timedAfter netIp mac ops).2
            (cutAge (timedAfter netIp mac ops).1.tx
              (timedAfter netIp mac ops).1.clock.gptpUptimeMs)
            fun _ => True) := by
  have hlog := logged_timedAfter netIp mac ops
  exact ⟨fun r dmac reads hnew => evictsRight_unicast hlog hfull hnew dmac reads,
    fun extId chans n reads hnew => evictsRight_multicast hlog hfull hnew chans n reads⟩

/-! ## A full table -/

/-- A receiver at `169.254.1.host` asks for a flow. -/
def flowFrom (host : UInt8) : UnicastReq where
  peer := ⟨169, 254, 1, host⟩
  dst := ⟨169, 254, 1, host⟩
  dport := 14400
  chans := fun i => if i.val < 2 then 1 else 0
  nslots := ⟨2, two_slots⟩
  fpp := ⟨16, sixteen_mem⟩

def flowOp (host : UInt8) : TimedOp :=
  .unicast (flowFrom host) (some ⟨2, 0, 0, 0, 1, host⟩) fun _ => (0, 0)

/-- Group 32 is created first; then five receivers come, a second apart. -/
def fillTable : List TimedOp :=
  [.multicast 32 (fun i => if i.val < 2 then 1 else 0) ⟨2, two_slots⟩ (fun _ => (0, 0)),
    .tick 1000000000, flowOp 10, .tick 1000000000, flowOp 11, .tick 1000000000, flowOp 12,
    .tick 1000000000, flowOp 13, .tick 1000000000, flowOp 14]

def timedSession (ops : List TimedOp) : Timed × BindLog :=
  timedAfter ⟨169, 254, 9, 200⟩ ⟨2, 0, 0, 0, 9, 200⟩ ops

/-- The sixth receiver evicts the first, not the group. -/
theorem eviction_choice_session :
    EvictsRight (timedSession fillTable).1.tx (timedSession fillTable).2 (sameSocket (flowFrom 15))
      (bindUnicast (timedSession fillTable).1.tx (flowFrom 15) ⟨2, 0, 0, 0, 1, 15⟩
        (timedSession fillTable).1.clock.gptpUptimeMs fun _ => (0, 0)) :=
  have hfull : Full (timedSession fillTable).1.tx := by
    unfold Full
    decide +kernel
  ((eviction_choice ⟨169, 254, 9, 200⟩ ⟨2, 0, 0, 0, 9, 200⟩ fillTable hfull).1 (flowFrom 15)
      ⟨2, 0, 0, 0, 1, 15⟩ (fun _ => (0, 0)) (by decide +kernel)).2
    (agesAgree_of_steady (logged_timedAfter _ _ fillTable) hfull
      ⟨by decide +kernel, by decide +kernel, by decide +kernel⟩)

/-- A second group evicts the first although there are five unicast flows; and after the clock
was set back by a millisecond, the sixth receiver evicts the one that came last. -/
theorem eviction_choice_wrong :
    ¬ EvictsRight (timedSession fillTable).1.tx (timedSession fillTable).2 (sameId 33)
        (bindMulticast (timedSession fillTable).1.tx 33 (fun _ => 1) ⟨2, by decide⟩
          (timedSession fillTable).1.clock.gptpUptimeMs fun _ => (0, 0)) ∧
      ¬ EvictsRight (timedSession (fillTable ++ [.adjustOffset (-1000000)])).1.tx
        (timedSession (fillTable ++ [.adjustOffset (-1000000)])).2 (sameSocket (flowFrom 15))
        (bindUnicast (timedSession (fillTable ++ [.adjustOffset (-1000000)])).1.tx
          (flowFrom 15) ⟨2, 0, 0, 0, 1, 15⟩
          (timedSession (fillTable ++ [.adjustOffset (-1000000)])).1.clock.gptpUptimeMs
          fun _ => (0, 0)) := by
  constructor
  · intro h
    have hunicast := h.victim.1 ⟨1, by decide +kernel⟩
    exact absurd hunicast (by decide +kernel)
  · intro h
    have hoccurs := h.victim.2 1 fun _ => by decide +kernel
    exact absurd hoccurs (by decide +kernel)

end Firmware
end InfernoFpga
