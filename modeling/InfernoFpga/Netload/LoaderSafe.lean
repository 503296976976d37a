import InfernoFpga.Netload.Loader
import Mathlib.Data.List.Range

/-!
# LoaderSafe — what the loader writes and when it reports success

An observer logs every byte stored in the code RAM since the last accepted START.  Whatever
frames arrive, the log is the image from its first byte on, in order and without a gap, and the
code RAM agrees with it.
-/

namespace InfernoFpga
namespace Netload

open Lib

/-! ## The log of a transfer -/

/-- The accepted START, and the stores since, in order: address and byte. -/
structure Transfer where
  len : Nat
  crc : Nat
  stores : List (Nat × UInt8)

namespace Transfer

def none : Transfer := { len := 0, crc := 0, stores := [] }

/-- The bytes the DATA branch stores. -/
def chunk (f : Rx) : List (Nat × UInt8) :=
  (List.range f.plen).map fun k => (f.arg0 + k, f.slot (nlHdrLen + k))

def next (s : Loader) (rx : Option Rx) (t : Transfer) : Transfer :=
  match taken s rx with
  | .none => t
  | some f =>
      if f.op = opStart ∧ acceptsStart f = true then { len := f.arg0, crc := f.arg1, stores := [] }
      else if f.op = opData ∧ s.started = true ∧ acceptsData s f = true then
        { t with stores := t.stores ++ chunk f }
      else t

end Transfer

/-- The addresses that are stored to on this turn. -/
def writes (s : Loader) (rx : Option Rx) : List Nat :=
  match taken s rx with
  | .none => []
  | some f =>
      if f.op = opData ∧ s.started = true ∧ acceptsData s f = true then
        (Transfer.chunk f).map Prod.fst
      else []

/-- The loader with the log of its transfer. -/
def logged : Loader × Transfer → Option Rx → Loader × Transfer := watch step Transfer.next

/-- Loader and log after the turns `rxs`, from boot. -/
def loaderAfter (ram : Mem) (rxs : List (Option Rx)) : Loader × Transfer :=
  run logged (Loader.boot ram, Transfer.none) rxs

/-- The locals against the log. -/
structure Consistent (s : Loader) (t : Transfer) : Prop where
  len : s.imgLen = t.len
  crc : s.imgCrc = t.crc
  inOrder : t.stores.map Prod.fst = List.range s.nextOff
  stored : Mem.slice s.coderam 0 s.nextOff = t.stores.map Prod.snd
  next : s.nextOff ≤ s.imgLen
  fits : s.imgLen ≤ coderamSize
  success : s.returned = some true → s.nextOff = s.imgLen ∧ storedCrc s = s.imgCrc

section Invariant

variable {s : Loader} {t : Transfer} {f : Rx} {rx : Option Rx}

theorem plen_le (f : Rx) : f.plen ≤ nlMaxPayload := by
  simp only [Rx.plen]
  split <;> split <;> omega

theorem length_payload (f : Rx) : f.payload.length = f.plen := Mem.length_slice ..

theorem chunk_fst (f : Rx) :
    (Transfer.chunk f).map Prod.fst = (List.range f.plen).map (f.arg0 + ·) := by
  simp [Transfer.chunk, Function.comp_def]

theorem chunk_snd (f : Rx) : (Transfer.chunk f).map Prod.snd = f.payload := by
  simp [Transfer.chunk, Rx.payload, Mem.slice, Function.comp_def]

/-- The sum of the bounds test does not wrap, so an accepted chunk ends inside the image. -/
theorem end_of_accepted (hc : Consistent s t) (h : acceptsData s f = true) :
    f.arg0 = s.nextOff ∧ (f.arg0 + f.plen) % 2 ^ 32 = s.nextOff + f.plen ∧
      s.nextOff + f.plen ≤ s.imgLen := by
  simp only [acceptsData, Bool.and_eq_true, beq_iff_eq, decide_eq_true_eq] at h
  obtain ⟨⟨-, hoff⟩, hle⟩ := h
  have hplen : f.plen ≤ 1024 := plen_le f
  have hnext := hc.next
  have hfits : s.imgLen ≤ 98304 := hc.fits
  have hwrap : (f.arg0 + f.plen) % 2 ^ 32 = s.nextOff + f.plen := by
    rw [hoff]
    exact Nat.mod_eq_of_lt (by omega)
  exact ⟨hoff, hwrap, hwrap ▸ hle⟩

theorem consistent_spin (hc : Consistent s t) : Consistent (spin s) t := by
  unfold spin
  split
  · exact hc
  · exact ⟨hc.len, hc.crc, hc.inOrder, hc.stored, hc.next, hc.fits, hc.success⟩

theorem consistent_start (t' : Transfer) (hreturned : s.returned = none)
    (haccepts : acceptsStart f = true) (ht : t' = ⟨f.arg0, f.arg1, []⟩) :
    Consistent (start s f) t' := by
  subst ht
  simp only [acceptsStart, Bool.and_eq_true, Bool.not_eq_true', decide_eq_false_iff_not] at haccepts
  exact ⟨rfl, rfl, rfl, rfl, Nat.zero_le _, Nat.le_of_not_lt haccepts.2,
    fun h => by simp [start, hreturned] at h⟩

theorem consistent_store (hc : Consistent s t) (hreturned : s.returned = none)
    (haccepts : acceptsData s f = true) :
    Consistent (storeData s f) { t with stores := t.stores ++ Transfer.chunk f } := by
  obtain ⟨hoff, hwrap, hle⟩ := end_of_accepted hc haccepts
  rw [storeData, if_pos haccepts]
  refine ⟨hc.len, hc.crc, ?_, ?_, ?_, hc.fits, fun h => by simp [hreturned] at h⟩
  · show (t.stores ++ _).map Prod.fst = List.range ((f.arg0 + f.plen) % 2 ^ 32)
    rw [List.map_append, hc.inOrder, chunk_fst, hwrap, hoff, List.range_add]
  · show Mem.slice (Mem.store s.coderam f.arg0 f.payload) 0 ((f.arg0 + f.plen) % 2 ^ 32) = _
    rw [hwrap, hoff, Mem.slice_append, Nat.zero_add,
      Mem.slice_store_disjoint (Or.inl (by omega)), hc.stored, List.map_append, chunk_snd]
    have hsame := Mem.slice_store_same s.coderam s.nextOff f.payload
    rw [length_payload] at hsame
    rw [hsame]
  · show (f.arg0 + f.plen) % 2 ^ 32 ≤ s.imgLen
    omega

/-- A handled frame keeps the log and the locals together. -/
theorem consistent_handle (hc : Consistent s t) (hreturned : s.returned = none) :
    Consistent (handle s f).1
      (if f.op = opStart ∧ acceptsStart f = true then ⟨f.arg0, f.arg1, []⟩
        else if f.op = opData ∧ s.started = true ∧ acceptsData s f = true then
          { t with stores := t.stores ++ Transfer.chunk f }
        else t) := by
  unfold handle
  by_cases hstart : f.op = opStart
  · rw [if_pos hstart]
    cases haccepts : acceptsStart f with
    | true => simpa [hstart] using consistent_start _ hreturned haccepts rfl
    | false => simpa [hstart, opStart, opData] using hc
  · have hnot : ¬ (f.op = opStart ∧ acceptsStart f = true) := fun h => hstart h.1
    rw [if_neg hstart, if_neg hnot]
    by_cases hdata : f.op = opData ∧ s.started = true
    · rw [if_pos hdata]
      cases haccepts : acceptsData s f with
      | true => simpa [hdata.1, hdata.2] using consistent_store hc hreturned haccepts
      | false => simpa [storeData, haccepts] using hc
    · have hstay : ¬ (f.op = opData ∧ s.started = true ∧ acceptsData s f = true) :=
        fun h => hdata ⟨h.1, h.2.1⟩
      rw [if_neg hdata, if_neg hstay]
      split
      · split
        · exact hc
        · rename_i hfull
          split
          · exact ⟨hc.len, hc.crc, hc.inOrder, hc.stored, hc.next, hc.fits,
              fun h => by simp [hreturned] at h⟩
          · rename_i hcrc
            exact ⟨hc.len, hc.crc, hc.inOrder, hc.stored, hc.next, hc.fits,
              fun _ => ⟨not_not.mp hfull, not_not.mp hcrc⟩⟩
      · exact hc

/-- A turn of the loop keeps the log and the locals together. -/
theorem consistent_step (hc : Consistent s t) :
    Consistent (step s rx) (Transfer.next s rx t) := by
  cases htaken : taken s rx with
  | none =>
    obtain ⟨spins, returned, hstep, hret⟩ := step_untaken htaken
    rw [hstep, Transfer.next, htaken]
    exact ⟨hc.len, hc.crc, hc.inOrder, hc.stored, hc.next, hc.fits,
      fun h => hc.success (hret h)⟩
  | some f =>
    have hreturned : s.returned = none := by
      simp only [taken, Bool.and_eq_true, Option.isNone_iff_eq_none] at htaken
      split at htaken
      · rename_i hopen
        exact hopen.1
      · cases htaken
    have hspin : (spin s).returned = none ∧ (spin s).started = s.started ∧
        acceptsData (spin s) f = acceptsData s f := by
      unfold spin
      split
      · exact ⟨hreturned, rfl, rfl⟩
      · exact ⟨hreturned, rfl, rfl⟩
    have hnext := consistent_handle (f := f) (consistent_spin hc) hspin.1
    rw [hspin.2.1, hspin.2.2] at hnext
    rw [step, poll_taken htaken, Transfer.next, htaken]
    exact hnext

theorem consistent_boot (ram : Mem) : Consistent (Loader.boot ram) Transfer.none :=
  ⟨rfl, rfl, rfl, rfl, le_rfl, Nat.zero_le _, fun h => by simp [Loader.boot] at h⟩

theorem consistent_loaderAfter (ram : Mem) (rxs : List (Option Rx)) :
    Consistent (loaderAfter ram rxs).1 (loaderAfter ram rxs).2 :=
  run_invariant logged (P := fun p => Consistent p.1 p.2)
    (fun _ _ hc => consistent_step hc) rxs (consistent_boot ram)

/-- An address that is not stored to keeps its byte. -/
theorem coderam_step {a : Nat} (ha : a ∉ writes s rx) :
    (step s rx).coderam a = s.coderam a := by
  cases htaken : taken s rx with
  | none =>
    obtain ⟨spins, returned, hstep, -⟩ := step_untaken htaken
    rw [hstep]
  | some f =>
    have hspin : (spin s).coderam = s.coderam ∧ (spin s).started = s.started ∧
        acceptsData (spin s) f = acceptsData s f := by
      unfold spin
      split <;> exact ⟨rfl, rfl, rfl⟩
    rw [step, poll_taken htaken]
    simp only [writes, htaken] at ha
    unfold handle
    split
    · split
      · exact congrFun hspin.1 a
      · exact congrFun hspin.1 a
    · rw [hspin.2.1]
      split
      · rename_i hdata
        rw [storeData, hspin.2.2, hspin.1]
        cases haccepts : acceptsData s f with
        | false => exact congrFun hspin.1 a
        | true =>
          rw [if_pos ⟨hdata.1, hdata.2, haccepts⟩, chunk_fst, List.mem_map] at ha
          have hout : a < f.arg0 ∨ f.arg0 + f.payload.length ≤ a := by
            by_contra hin
            rw [length_payload] at hin
            exact ha ⟨a - f.arg0, List.mem_range.2 (by omega), by omega⟩
          show Mem.store s.coderam f.arg0 f.payload a = s.coderam a
          rcases hout with hlt | hge
          · exact Mem.store_of_lt hlt
          · exact Mem.store_of_ge hge
      · split
        · split
          · exact congrFun hspin.1 a
          · split <;> exact congrFun hspin.1 a
        · exact congrFun hspin.1 a

theorem writes_lt {a : Nat} (hc : Consistent s t) (ha : a ∈ writes s rx) : a < s.imgLen := by
  simp only [writes] at ha
  split at ha
  · cases ha
  · split at ha
    · rename_i f _ hdata
      obtain ⟨hoff, -, hle⟩ := end_of_accepted hc hdata.2.2
      rw [chunk_fst, List.mem_map] at ha
      obtain ⟨k, hk, rfl⟩ := ha
      have := List.mem_range.1 hk
      omega
    · cases ha

end Invariant

/-- After any sequence of polls with any frames: the bounds hold, the sum of the next bounds test
does not wrap, only addresses inside the image are stored to, and once success is reported every
byte of the image has been stored in order since the accepted START and the CRC over the stored
bytes is the announced one. -/
theorem netload_safe (ram : Mem) (rxs : List (Option Rx)) :
    ((loaderAfter ram rxs).1.nextOff ≤ (loaderAfter ram rxs).1.imgLen ∧
      (loaderAfter ram rxs).1.imgLen ≤ coderamSize) ∧
    (∀ f : Rx, f.arg0 = (loaderAfter ram rxs).1.nextOff → f.arg0 + f.plen < 2 ^ 32) ∧
    (∀ rx a, (a ∈ writes (loaderAfter ram rxs).1 rx → a < (loaderAfter ram rxs).1.imgLen) ∧
      (a ∉ writes (loaderAfter ram rxs).1 rx →
        (step (loaderAfter ram rxs).1 rx).coderam a = (loaderAfter ram rxs).1.coderam a)) ∧
    ((loaderAfter ram rxs).1.returned = some true →
      (loaderAfter ram rxs).2.stores.map Prod.fst = List.range (loaderAfter ram rxs).2.len ∧
      (crc32 ((loaderAfter ram rxs).2.stores.map Prod.snd)).toNat =
        (loaderAfter ram rxs).2.crc) := by
  have hc := consistent_loaderAfter ram rxs
  refine ⟨⟨hc.next, hc.fits⟩, fun f hoff => ?_, fun rx a => ⟨writes_lt hc, coderam_step⟩,
    fun hsuccess => ?_⟩
  · have hplen : f.plen ≤ 1024 := plen_le f
    have hnext := hc.next
    have hfits : (loaderAfter ram rxs).1.imgLen ≤ 98304 := hc.fits
    omega
  · obtain ⟨hend, hcrc⟩ := hc.success hsuccess
    refine ⟨by rw [hc.inOrder, hend, hc.len], ?_⟩
    rw [← hc.stored, hend, ← hc.crc]
    exact hcrc

end Netload
end InfernoFpga
