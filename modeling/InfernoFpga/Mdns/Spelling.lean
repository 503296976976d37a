import InfernoFpga.Mdns.Compress

/-!
# Spelling — the names of the responder are made of labels

A name that has an empty label cannot be written as a domain name.  The device's own two names are
the only ones that could have one: given that they have none, every owner and every target the
responder writes is a list of labels, short enough for the cache.
-/

namespace InfernoFpga
namespace Mdns

open Lib
open Firmware

/-! ## Names made of labels -/

instance (l : Str) : Decidable (Label l) :=
  decidable_of_iff (l ≠ [] ∧ l.length < 64 ∧ dot ∉ l ∧ (0 : UInt8) ∉ l)
    ⟨fun h => ⟨h.1, h.2.1, h.2.2.1, h.2.2.2⟩, fun h => ⟨h.ne, h.short, h.noDot, h.noZero⟩⟩

instance (ls : List Str) : Decidable (Labels ls) :=
  inferInstanceAs (Decidable (∀ l ∈ ls, Label l))

/-- A name with an empty label: empty itself, or with a dot at an end, or two in a row. -/
def HasGap (name : Str) : Prop := [] ∈ name.splitOn dot

instance (name : Str) : Decidable (HasGap name) :=
  inferInstanceAs (Decidable ([] ∈ name.splitOn dot))

/-- A name that fits the cache and has at least `k` labels. -/
def Spelled (k : Nat) (name : Str) : Prop :=
  ∃ l ls, Labels (l :: ls) ∧ name = dotted (l :: ls) ∧ name.length < ncName ∧ k ≤ (l :: ls).length

theorem Spelled.mono {k k' : Nat} {name : Str} (h : Spelled k name) (hle : k' ≤ k) :
    Spelled k' name := by
  obtain ⟨l, ls, hl, hname, hlen, hk⟩ := h
  exact ⟨l, ls, hl, hname, hlen, hle.trans hk⟩

/-- What a name is split into are pieces of it without dots. -/
theorem of_mem_splitOn {name l : Str} (h : l ∈ name.splitOn dot) :
    l.Sublist name ∧ dot ∉ l := by
  induction name generalizing l with
  | nil =>
    rw [List.splitOn_nil, List.mem_singleton] at h
    rw [h]
    exact ⟨List.Sublist.refl [], List.not_mem_nil⟩
  | cons c name ih =>
    rw [List.splitOn_cons_eq_if_modifyHead] at h
    obtain ⟨first, rest, hsplit⟩ := List.exists_cons_of_ne_nil (List.splitOn_ne_nil dot name)
    split at h
    · rcases List.mem_cons.1 h with rfl | h
      · exact ⟨List.nil_sublist _, List.not_mem_nil⟩
      · exact ⟨(ih h).1.cons c, (ih h).2⟩
    · -- the letter goes to the first piece
      rename_i hc
      rw [hsplit, List.modifyHead_cons] at h
      rw [hsplit] at ih
      rcases List.mem_cons.1 h with rfl | h
      · obtain ⟨hsub, hdot⟩ := ih List.mem_cons_self
        refine ⟨hsub.cons_cons c, fun hmem => ?_⟩
        rcases List.mem_cons.1 hmem with heq | hmem
        · exact hc (by rw [heq, beq_self_eq_true])
        · exact hdot hmem
      · obtain ⟨hsub, hdot⟩ := ih (List.mem_cons_of_mem _ h)
        exact ⟨hsub.cons c, hdot⟩

/-- A short name without a gap is split into labels. -/
theorem labels_splitOn {name : Str} (hgap : ¬ HasGap name) (hlen : name.length < 64)
    (hzero : (0 : UInt8) ∉ name) : Labels (name.splitOn dot) := by
  intro l hl
  obtain ⟨hsub, hdot⟩ := of_mem_splitOn hl
  have hshort := hsub.length_le
  refine ⟨fun hnil => hgap ?_, by omega, hdot, fun h0 => hzero (hsub.subset h0)⟩
  rwa [hnil] at hl

theorem dotted_splitOn (name : Str) : dotted (name.splitOn dot) = name :=
  List.intercalate_splitOn dot

theorem dotted_append {ls ls' : List Str} (h : ls ≠ []) (h' : ls' ≠ []) :
    dotted (ls ++ ls') = dotted ls ++ dot :: dotted ls' := by
  induction ls with
  | nil => exact absurd rfl h
  | cons l ls ih =>
    rcases eq_or_ne ls [] with rfl | hne
    · rw [List.singleton_append, dotted_cons l h', dotted_singleton]
    · have hne' : ls ++ ls' ≠ [] := List.append_ne_nil_of_left_ne_nil hne _
      rw [List.cons_append, dotted_cons l hne', ih hne, dotted_cons l hne, List.append_assoc]
      rfl

theorem Labels.append {ls ls' : List Str} (h : Labels ls) (h' : Labels ls') :
    Labels (ls ++ ls') := by
  intro l hl
  rcases List.mem_append.1 hl with hl | hl
  · exact h l hl
  · exact h' l hl

/-- A name without a gap, then a text of labels. -/
theorem spelled_append {name : Str} {ls : List Str} {k : Nat} (hgap : ¬ HasGap name)
    (hlen : name.length < 64) (hzero : (0 : UInt8) ∉ name) (hl : Labels ls) (hne : ls ≠ [])
    (hfit : (name ++ dot :: dotted ls).length < ncName) (hk : k ≤ ls.length + 1) :
    Spelled k (name ++ dot :: dotted ls) := by
  have hsplit := List.splitOn_ne_nil dot name
  obtain ⟨first, rest, hpieces⟩ := List.exists_cons_of_ne_nil hsplit
  refine ⟨first, rest ++ ls, ?_, ?_, hfit, ?_⟩
  · have hall := (labels_splitOn hgap hlen hzero).append hl
    rwa [hpieces] at hall
  · have htext := dotted_append hsplit hne
    rw [dotted_splitOn, hpieces] at htext
    exact htext.symm
  · rw [List.length_cons, List.length_append]
    omega

/-- Letters in front of a name lengthen its first label. -/
theorem not_hasGap_append {pre name : Str} (hdot : dot ∉ pre) (hgap : ¬ HasGap name) :
    ¬ HasGap (pre ++ name) := by
  induction pre with
  | nil => exact hgap
  | cons c pre ih =>
    have hc : (c == dot) = false := by
      rw [beq_eq_false_iff_ne]
      exact fun heq => hdot (heq ▸ List.mem_cons_self)
    have hrest := ih fun hmem => hdot (List.mem_cons_of_mem c hmem)
    obtain ⟨first, rest, hsplit⟩ :=
      List.exists_cons_of_ne_nil (List.splitOn_ne_nil dot (pre ++ name))
    rw [HasGap, hsplit] at hrest
    rw [HasGap, List.cons_append, List.splitOn_cons_eq_if_modifyHead, hc, hsplit]
    intro hmem
    rcases List.mem_cons.1 hmem with hnil | hmem
    · exact List.cons_ne_nil _ _ hnil.symm
    · exact hrest (List.mem_cons_of_mem _ hmem)

/-! ## The names of the responder -/

/-- The labels of a service. -/
def Svc.labels : Svc → List Str
  | .arc => [ascii "_netaudio-arc", ascii "_udp", ascii "local"]
  | .cmc => [ascii "_netaudio-cmc", ascii "_udp", ascii "local"]
  | .chan => [ascii "_netaudio-chan", ascii "_udp", ascii "local"]
  | .bund => [ascii "_netaudio-bund", ascii "_udp", ascii "local"]

theorem Svc.dotted_labels (s : Svc) : dotted s.labels = s.name := by
  cases s <;> decide

theorem Svc.labels_labels (s : Svc) : Labels s.labels := by
  cases s <;> decide

theorem Svc.length_name (s : Svc) : s.name.length ≤ 26 := by
  cases s <;> decide

theorem spelled_svc (s : Svc) : Spelled 3 s.name := by
  have htext := s.dotted_labels
  have hlabels := s.labels_labels
  have hlen := s.length_name
  have hfit : ncName = 96 := rfl
  cases s <;> exact ⟨_, _, hlabels, htext.symm, by omega, Nat.le_refl _⟩

theorem spelled_services : Spelled 3 nServices :=
  ⟨ascii "_services", [ascii "_dns-sd", ascii "_udp", ascii "local"], by decide, by decide,
    by decide, by decide⟩

/-- Neither name of the device has an empty label. -/
structure Named (b : Board) : Prop where
  name : ¬ HasGap b.dev.name
  hostname : ¬ HasGap b.dev.hostname

theorem cat2_eq {n : Nat} {s t : Str} (h : (s ++ t).length < n) : cat2 n s t = s ++ t := by
  rw [cat2, List.take_of_length_le (by omega)]

theorem spelled_nHost {b : Board} (h : Named b) : Spelled 2 b.nHost := by
  obtain ⟨hlen, hzero⟩ := b.dev.hostname.2
  have hmax : danteMaxName = 32 := rfl
  have hfit : ncName = 96 := rfl
  have hlocal : (ascii ".local").length = 6 := rfl
  have hname : b.nHost = (b.dev.hostname : Str) ++ dot :: dotted [ascii "local"] := by
    rw [Board.nHost, cat2_eq (by rw [List.length_append]; omega)]
    rfl
  have hshort : ((b.dev.hostname : Str) ++ dot :: dotted [ascii "local"]).length < ncName := by
    rw [← hname, Board.nHost, cat2_eq (by rw [List.length_append]; omega), List.length_append]
    omega
  rw [hname]
  exact spelled_append h.hostname (by omega) hzero (by decide) (by decide) hshort (Nat.le_refl _)

/-- A name of at most 40 bytes without a gap, in front of a service. -/
theorem spelled_inst {name : Str} (hgap : ¬ HasGap name) (hlen : name.length ≤ 40)
    (hzero : (0 : UInt8) ∉ name) (s : Svc) : Spelled 3 (name ++ dot :: s.name) := by
  have hname := s.length_name
  have hfit : ncName = 96 := rfl
  rw [← s.dotted_labels]
  refine spelled_append hgap (by omega) hzero s.labels_labels (by cases s <;> decide) ?_
    (by cases s <;> decide)
  rw [s.dotted_labels, List.length_append, List.length_cons]
  omega

theorem spelled_svcInst {b : Board} (h : Named b) (s : Svc) : Spelled 3 (b.svcInst s) := by
  obtain ⟨hlen, hzero⟩ := b.dev.name.2
  have hname := s.length_name
  have hmax : danteMaxName = 32 := rfl
  rw [Board.svcInst, cat2_eq (by rw [List.length_append, List.length_cons]; omega)]
  exact spelled_inst h.name (by omega) hzero s

theorem spelled_instName {b : Board} (h : Named b) {label : Str} (hlabel : Digits label) (s : Svc) :
    Spelled 3 (b.instName label s) := by
  obtain ⟨hlen, hzero⟩ := b.dev.name.2
  have hname := s.length_name
  have hshort := hlabel.short
  have hmax : danteMaxName = 32 := rfl
  have hinst : mdnsInstMax = 112 := rfl
  have hone : (ascii "@").length = 1 := rfl
  have hat : dot ∉ ascii "@" ∧ (0 : UInt8) ∉ ascii "@" := by decide
  have htext : label ++ ascii "@" ++ (b.dev.name : Str) ++ [dot] ++ s.name =
      (label ++ ascii "@" ++ b.dev.name) ++ dot :: s.name := by
    rw [List.append_assoc, List.singleton_append]
  rw [Board.instName, htext, List.take_of_length_le (by
    simp only [List.length_append, List.length_cons]
    omega)]
  refine spelled_inst (not_hasGap_append ?_ h.name) ?_ ?_ s
  · exact fun hmem => (List.mem_append.1 hmem).elim hlabel.noDot hat.1
  · simp only [List.length_append]
    omega
  · intro hmem
    rcases List.mem_append.1 hmem with hmem | hmem
    · exact (List.mem_append.1 hmem).elim hlabel.noZero hat.2
    · exact hzero hmem

theorem spelled_bInst {b : Board} (h : Named b) (i : Instance) : Spelled 3 (b.inst i) := by
  cases i with
  | chan ch1 => exact spelled_instName h (digits_danteTxChannelName _) .chan
  | bund id => exact spelled_instName h (digits_bundLabel id) .bund

end Mdns
end InfernoFpga
