import InfernoFpga.Mdns.Query
import InfernoFpga.Firmware.Binds

/-!
# Bundle — the label a channel names its multicast flow by

The text of a channel names the multicast flow that carries it by a label, and a receiver looks the
flow up under the instance name made of that label.  One function prints the label of the text, a
second the label of the instance name, and a third compares the latter with a query; the first has
room for two digits, the second for three.
-/

namespace InfernoFpga
namespace Mdns

open Lib
open Firmware
open Packetizer (CtxId)

/-! ## Reading a text record -/

/-- The length-prefixed strings of a text record, at most `fuel` of them. -/
def txtStringsLoop : Nat → List UInt8 → List Str
  | 0, _ => []
  | _ + 1, [] => []
  | fuel + 1, l :: rest => rest.take l.toNat :: txtStringsLoop fuel (rest.drop l.toNat)

def txtStrings (t : List UInt8) : List Str := txtStringsLoop t.length t

theorem txtStringsLoop_txtPut (fuel : Nat) (s : Str) (t : List UInt8) :
    txtStringsLoop (fuel + 1) (txtPut s ++ t) = s.take 255 :: txtStringsLoop fuel t := by
  have hlen : (UInt8.ofNat (s.take 255).length).toNat = (s.take 255).length := by
    rw [UInt8.toNat_ofNat', List.length_take]
    omega
  rw [txtPut, List.cons_append, txtStringsLoop, hlen, List.take_left, List.drop_left]

/-- What was put into a text record is read from it, each string cut at 255 bytes. -/
theorem txtStrings_flatMap (ss : List Str) :
    txtStrings (ss.flatMap txtPut) = ss.map fun s => s.take 255 := by
  have hloop : ∀ (ss : List Str) (fuel : Nat), ss.length ≤ fuel →
      txtStringsLoop fuel (ss.flatMap txtPut) = ss.map fun s => s.take 255 := by
    intro ss
    induction ss with
    | nil =>
      intro fuel _
      cases fuel <;> rfl
    | cons s ss ih =>
      intro fuel hfuel
      cases fuel with
      | zero => cases hfuel
      | succ fuel =>
        rw [List.flatMap_cons, txtStringsLoop_txtPut, ih fuel (Nat.le_of_succ_le_succ hfuel)]
        rfl
  refine hloop ss _ ?_
  induction ss with
  | nil => exact Nat.le_refl 0
  | cons s ss ih =>
    have hput : 1 ≤ (txtPut s).length := by
      rw [txtPut, List.length_cons]
      omega
    rw [List.flatMap_cons, List.length_append, List.length_cons]
    omega

/-- A string that sends a receiver down the multicast path. -/
def isBundleKey (s : Str) : Bool := (ascii "b.").isPrefixOf s

/-- The bundle keys of a text record. -/
def bundleKeys (t : List UInt8) : List Str := (txtStrings t).filter isBundleKey

/-- What a bundle key says between `b.` and `=`. -/
def keyLabel (s : Str) : Str := (s.drop 2).takeWhile (· ≠ 61)

/-- What it says behind the `=`. -/
def keyPosition (s : Str) : Str := ((s.drop 2).dropWhile (· ≠ 61)).drop 1

/-! ## The bundle key of a channel -/

/-- The label `build_txt_chan` writes. -/
def textLabel (bid : Nat) : Str :=
  (if 10 ≤ bid then [digit (bid / 10 % 10)] else []) ++ [digit (bid % 10)]

theorem bundleText_eq (bid pos : Nat) :
    bundleText bid pos = ascii "b." ++ (textLabel bid ++ 61 :: [digit pos]) := by
  rw [bundleText, textLabel]
  simp only [List.append_assoc]
  rfl

theorem digit_ne_equals : ∀ v < 10, digit v ≠ 61 := by decide

theorem equals_notMem_textLabel (bid : Nat) : ∀ c ∈ textLabel bid, c ≠ 61 := by
  have hten := digit_ne_equals (bid / 10 % 10) (Nat.mod_lt _ (by decide))
  have hone := digit_ne_equals (bid % 10) (Nat.mod_lt _ (by decide))
  intro c hc
  rw [textLabel] at hc
  split at hc
  · simp only [List.cons_append, List.nil_append, List.mem_cons, List.not_mem_nil, or_false] at hc
    rcases hc with rfl | rfl
    · exact hten
    · exact hone
  · rw [List.nil_append, List.mem_singleton] at hc
    rw [hc]
    exact hone

/-- A reader finds label and position of a key where they were written. -/
theorem keyLabel_bundleText (bid pos : Nat) :
    keyLabel (bundleText bid pos) = textLabel bid ∧
      keyPosition (bundleText bid pos) = [digit pos] := by
  have hdrop : (bundleText bid pos).drop 2 = textLabel bid ++ 61 :: [digit pos] := by
    rw [bundleText_eq]
    rfl
  have hall : ∀ c ∈ textLabel bid, decide (c ≠ 61) = true := fun c hc =>
    decide_eq_true (equals_notMem_textLabel bid c hc)
  rw [keyLabel, keyPosition, hdrop]
  constructor
  · rw [List.takeWhile_append_of_pos hall, List.takeWhile_cons_of_neg (by decide), List.append_nil]
  · rw [List.dropWhile_append_of_pos hall, List.dropWhile_cons_of_neg (by decide)]
    rfl

/-- The strings of a channel's text. -/
def chanTexts (b : Board) (ch1 : Nat) : List Str :=
  [ascii "txtvers=2", ascii "dbcp1=0x1200", ascii "id=" ++ decimal ch1, ascii "dbcp=0x1004",
    ascii "rate=48000", ascii "en=24", ascii "pcm=3 4", ascii "enc=24",
    ascii "latency_ns=" ++ decimal b.latency, fppText b.fppAdvMax, ascii "nchan=" ++ decimal 8] ++
  (((danteTxChanBundle b.tx (ch1 % 2 ^ 16)).map fun x => bundleText x.1.toNat x.2).toList ++
    [ascii "at2"])

theorem buildTxtChan_eq (b : Board) (ch1 : Nat) :
    buildTxtChan b ch1 = (chanTexts b ch1).flatMap txtPut := by
  rw [buildTxtChan, chanTexts]
  simp only [List.flatMap_append, List.flatMap_cons, List.flatMap_nil, List.append_assoc,
    List.append_nil, txtPutKvU]
  cases danteTxChanBundle b.tx (ch1 % 2 ^ 16) with
  | none => rfl
  | some x =>
    simp only [Option.map_some, Option.toList_some, List.flatMap_cons, List.flatMap_nil,
      List.append_nil]

/-- Only a key that starts with a `b` can be a bundle key. -/
theorem isBundleKey_cons {c : UInt8} (rest : Str) (hc : c ≠ 98) :
    isBundleKey ((c :: rest).take 255) = false := by
  have hhead : (98 == c) = false := beq_eq_false_iff_ne.2 (Ne.symm hc)
  show (98 == c && List.isPrefixOf [46] (rest.take 254)) = false
  rw [hhead, Bool.false_and]

theorem isBundleKey_bundleText (bid pos : Nat) :
    (bundleText bid pos).take 255 = bundleText bid pos ∧
      isBundleKey (bundleText bid pos) = true := by
  have hlen : (textLabel bid).length ≤ 2 := by
    rw [textLabel]
    split
    · exact Nat.le_refl 2
    · exact Nat.le_succ 1
  refine ⟨List.take_of_length_le ?_, ?_⟩
  · have htwo : (ascii "b.").length = 2 := rfl
    rw [bundleText_eq, List.length_append, List.length_append, List.length_cons,
      List.length_singleton]
    omega
  · rw [bundleText_eq]
    rfl

/-- The bundle keys of a channel's text: one, if a multicast flow carries the channel. -/
theorem bundleKeys_buildTxtChan (b : Board) (ch1 : Nat) :
    bundleKeys (buildTxtChan b ch1) =
      ((danteTxChanBundle b.tx (ch1 % 2 ^ 16)).map fun x => bundleText x.1.toNat x.2).toList := by
  rw [bundleKeys, buildTxtChan_eq, txtStrings_flatMap, chanTexts, List.map_append, List.map_append,
    List.filter_append, List.filter_append]
  have hfront : ∀ front : List Str, (∀ s ∈ front, ∃ c rest, s = c :: rest ∧ c ≠ 98) →
      (front.map fun s => s.take 255).filter isBundleKey = [] := by
    intro front h
    refine List.filter_eq_nil_iff.2 fun s hs => ?_
    obtain ⟨s', hs', rfl⟩ := List.mem_map.1 hs
    obtain ⟨c, rest, rfl, hc⟩ := h s' hs'
    rw [isBundleKey_cons rest hc]
    exact Bool.noConfusion
  rw [hfront _ (fun s hs => ?_), hfront [ascii "at2"] (fun s hs => ?_), List.nil_append,
    List.append_nil]
  · cases danteTxChanBundle b.tx (ch1 % 2 ^ 16) with
    | none => rfl
    | some x =>
      obtain ⟨htake, hkey⟩ := isBundleKey_bundleText x.1.toNat x.2
      simp only [Option.map_some, Option.toList_some, List.map_cons, List.map_nil, htake,
        List.filter_cons, hkey, if_true, List.filter_nil]
  · rw [List.mem_singleton] at hs
    exact ⟨_, _, hs, by decide⟩
  · simp only [List.mem_cons, List.not_mem_nil, or_false] at hs
    rcases hs with rfl | rfl | rfl | rfl | rfl | rfl | rfl | rfl | rfl | rfl | rfl
    all_goals exact ⟨_, _, rfl, by decide⟩

/-! ## Two printers -/

theorem digit_inj : ∀ x < 10, ∀ y < 10, digit x = digit y → x = y := by decide

theorem bundLabel_one {v : Nat} (h : v < 10) : bundLabel v = [digit v] := by
  rw [bundLabel, if_neg (by omega), if_neg (by omega), Nat.mod_eq_of_lt h]
  rfl

theorem bundLabel_two {v : Nat} (h : 10 ≤ v) (h' : v < 100) :
    bundLabel v = [digit (v / 10), digit (v % 10)] := by
  have hten : v / 10 % 10 = v / 10 := Nat.mod_eq_of_lt (by omega)
  rw [bundLabel, if_neg (by omega), if_pos h, hten]
  rfl

theorem bundLabel_three {v : Nat} (h : 100 ≤ v) :
    bundLabel v = [digit (v / 100 % 10), digit (v / 10 % 10), digit (v % 10)] := by
  have hten : 10 ≤ v := by omega
  rw [bundLabel, if_pos h, if_pos hten]
  rfl

/-- Up to 99 the text and the instance name carry one label. -/
theorem textLabel_eq {v : Nat} (h : v < 100) : textLabel v = bundLabel v := by
  have hhundred : ¬ 100 ≤ v := by omega
  rw [textLabel, bundLabel, if_neg hhundred, List.nil_append]

/-- From 100 on the text drops the hundreds. -/
theorem textLabel_ne {v : Nat} (h : 100 ≤ v) : textLabel v ≠ bundLabel v := by
  have hten : 10 ≤ v := by omega
  rw [textLabel, bundLabel_three h, if_pos hten]
  intro heq
  cases congrArg List.length heq

/-- Labels tell ids apart up to 99, and from there on by their last three digits. -/
theorem bundLabel_eq_iff (v w : Nat) :
    bundLabel v = bundLabel w ↔ v = w ∨ (100 ≤ v ∧ 100 ≤ w ∧ v % 1000 = w % 1000) := by
  constructor
  · intro h
    rcases Nat.lt_or_ge v 10 with hv | hv
    · rw [bundLabel_one hv] at h
      rcases Nat.lt_or_ge w 10 with hw | hw
      · rw [bundLabel_one hw, List.cons_eq_cons] at h
        exact Or.inl (digit_inj v hv w hw h.1)
      rcases Nat.lt_or_ge w 100 with hw' | hw'
      · rw [bundLabel_two hw hw'] at h
        cases congrArg List.length h
      · rw [bundLabel_three hw'] at h
        cases congrArg List.length h
    rcases Nat.lt_or_ge v 100 with hv' | hv'
    · rw [bundLabel_two hv hv'] at h
      rcases Nat.lt_or_ge w 10 with hw | hw
      · rw [bundLabel_one hw] at h
        cases congrArg List.length h
      rcases Nat.lt_or_ge w 100 with hw' | hw'
      · rw [bundLabel_two hw hw'] at h
        simp only [List.cons.injEq, and_true] at h
        have htens := digit_inj _ (by omega) _ (by omega) h.1
        have hones := digit_inj _ (Nat.mod_lt _ (by decide)) _ (Nat.mod_lt _ (by decide)) h.2
        left
        omega
      · rw [bundLabel_three hw'] at h
        cases congrArg List.length h
    · rw [bundLabel_three hv'] at h
      rcases Nat.lt_or_ge w 10 with hw | hw
      · rw [bundLabel_one hw] at h
        cases congrArg List.length h
      rcases Nat.lt_or_ge w 100 with hw' | hw'
      · rw [bundLabel_two hw hw'] at h
        cases congrArg List.length h
      · rw [bundLabel_three hw'] at h
        simp only [List.cons.injEq, and_true] at h
        have hdigit : ∀ x y, digit (x % 10) = digit (y % 10) → x % 10 = y % 10 := fun x y =>
          digit_inj _ (Nat.mod_lt _ (by decide)) _ (Nat.mod_lt _ (by decide))
        have hhundreds := hdigit _ _ h.1
        have htens := hdigit _ _ h.2.1
        have hones := hdigit _ _ h.2.2
        exact Or.inr ⟨hv', hw', by omega⟩
  · rintro (rfl | ⟨hv, hw, hmod⟩)
    · rfl
    · have hhundreds : v / 100 % 10 = w / 100 % 10 := by omega
      have htens : v / 10 % 10 = w / 10 % 10 := by omega
      have hones : v % 10 = w % 10 := by omega
      rw [bundLabel_three hv, bundLabel_three hw, hhundreds, htens, hones]

/-! ## Instance names -/

section Names

variable {b : Board} {label label' : Str}

/-- What follows the label of an instance. -/
def instTail (b : Board) (s : Svc) : Str := ascii "@" ++ b.dev.name ++ [dot] ++ s.name

/-- A short label is not cut. -/
theorem instName_eq (hlabel : label.length ≤ 3) (s : Svc) :
    b.instName label s = label ++ instTail b s := by
  obtain ⟨hlen, -⟩ := b.dev.name.2
  have hsvc : s.name.length ≤ 26 := by cases s <;> decide
  have hmax : danteMaxName = 32 := rfl
  have hinst : mdnsInstMax = 112 := rfl
  have hone : (ascii "@").length = 1 := rfl
  rw [Board.instName, instTail, List.take_of_length_le]
  · simp only [List.append_assoc]
  · simp only [List.length_append, List.length_singleton]
    omega

theorem instName_inj (hlabel : label.length ≤ 3) (hlabel' : label'.length ≤ 3) (s : Svc) :
    b.instName label s = b.instName label' s ↔ label = label' := by
  rw [instName_eq hlabel, instName_eq hlabel']
  exact List.append_left_inj _

theorem length_textLabel (bid : Nat) : (textLabel bid).length ≤ 3 := by
  rw [textLabel]
  split
  · exact Nat.le_succ 2
  · exact Nat.le_add_right 1 2

theorem lc_digit : ∀ v < 10, lc (digit v) = digit v := by decide

/-- A label of digits has no case. -/
theorem map_lc_bundLabel (v : Nat) : (bundLabel v).map lc = bundLabel v := by
  have hdigit : ∀ x, lc (digit (x % 10)) = digit (x % 10) := fun x =>
    lc_digit _ (Nat.mod_lt _ (by decide))
  rw [bundLabel]
  split <;> split <;>
    simp only [List.map_append, List.map_cons, List.map_nil, hdigit]

theorem lc_lc (c : UInt8) : lc (lc c) = lc c := by
  by_cases h : 65 ≤ c ∧ c ≤ 90
  · have hlower : lc c = c + 32 := if_pos h
    rw [hlower, lc, if_neg]
    simp only [UInt8.le_iff_toNat_le, UInt8.toNat_add, UInt8.reduceToNat] at h ⊢
    omega
  · have hsame : lc c = c := if_neg h
    rw [hsame, hsame]

theorem map_lc_map_lc (s : Str) : (s.map lc).map lc = s.map lc := by
  rw [List.map_map]
  exact List.map_congr_left fun c _ => lc_lc c

/-- The query name of a bundle is matched by the bundles with its label. -/
theorem ieq_bundInst (b : Board) (v w : Nat) :
    ieq ((b.bundInst v).map lc) (b.bundInst w) = true ↔ bundLabel v = bundLabel w := by
  have hv := (digits_bundLabel v).short
  have hw := (digits_bundLabel w).short
  rw [ieq, beq_iff_eq, map_lc_map_lc, Board.bundInst, Board.bundInst, instName_eq hv, instName_eq hw,
    List.map_append, List.map_append, List.append_left_inj, map_lc_bundLabel, map_lc_bundLabel]

theorem hasSuffix_bundInst (b : Board) (v : Nat) :
    hasSuffix ((b.bundInst v).map lc) (dot :: Svc.name .bund) = true := by
  have hname : b.bundInst v =
      (bundLabel v ++ ascii "@" ++ b.dev.name) ++ (dot :: Svc.name .bund) := by
    rw [Board.bundInst, instName_eq (digits_bundLabel v).short, instTail]
    simp only [List.append_assoc, List.singleton_append]
  rw [hname, List.map_append, hasSuffix]
  generalize (bundLabel v ++ ascii "@" ++ b.dev.name).map lc = front
  generalize dot :: Svc.name .bund = suf
  have hlen : (front ++ suf.map lc).length - suf.length = front.length := by
    rw [List.length_append, List.length_map, Nat.add_sub_cancel]
  have hle : suf.length ≤ (front ++ suf.map lc).length := by
    rw [List.length_append, List.length_map]
    exact Nat.le_add_left _ _
  rw [hlen, List.drop_left, decide_eq_true hle, Bool.true_and, ieq, map_lc_map_lc, beq_self_eq_true]

end Names

/-! ## Do the labels agree? -/

/-- The first multicast flow that carries a channel. -/
def firstCarrier (t : Tx) (ch : Nat) : Option CtxId :=
  findFlow t fun s => s.isGroup && (slotPosition s ch).isSome

/-- A bundle key leads to flow `f`: its position is a slot that carries the channel, and its label
makes the name the flow is published under, which a query for it is matched with. -/
structure LeadsTo (b : Board) (ch : Nat) (s : Str) (f : CtxId) : Prop where
  position : ∃ c : Fin 8, c.val < (b.tx.flows f).nslots.val ∧
    ((b.tx.flows f).chans c).toNat = ch ∧ keyPosition s = decimal (c.val + 1)
  published : b.instName (keyLabel s) .bund = b.inst (.bund (b.tx.flows f).extId.toNat)
  matched : matchBundInst b ((b.instName (keyLabel s) .bund).map lc) =
    some (b.tx.flows f).extId.toNat

structure LabelsAgree (b : Board) : Prop where
  carried : ∀ ch, 1 ≤ ch → ch ≤ danteTxChannels → ∀ f, firstCarrier b.tx ch = some f →
    ∃ s, bundleKeys (buildTxtChan b ch) = [s] ∧ LeadsTo b ch s f
  uncarried : ∀ ch, 1 ≤ ch → ch ≤ danteTxChannels → firstCarrier b.tx ch = none →
    bundleKeys (buildTxtChan b ch) = []
  distinct : ∀ v ∈ b.groupIds, ∀ w ∈ b.groupIds, bundLabel v = bundLabel w → v = w

/-- A search for the first result is a search for the first position that has one. -/
theorem findSome?_eq_bind {α β : Type*} (g : α → Option β) (xs : List α) :
    xs.findSome? g = (xs.find? fun x => (g x).isSome).bind g := by
  induction xs with
  | nil => rfl
  | cons x xs ih =>
    cases hx : g x with
    | none => rw [List.findSome?_cons, hx, List.find?_cons_of_neg (by simp [hx]), ih]
    | some y =>
      rw [List.findSome?_cons, hx, List.find?_cons_of_pos (by rw [hx]; rfl), Option.bind_some, hx]

section Agree

variable {b : Board} {ch : Nat} {f : CtxId}

theorem danteTxChanBundle_eq (t : Tx) (ch : Nat) :
    danteTxChanBundle t ch = (firstCarrier t ch).bind fun f =>
      (slotPosition (t.flows f) ch).map fun pos => ((t.flows f).extId, pos) := by
  rw [danteTxChanBundle, findSome?_eq_bind, firstCarrier, findFlow]
  have hpred : (fun f => (if (t.flows f).isGroup then
      (slotPosition (t.flows f) ch).map fun pos => ((t.flows f).extId, pos) else none).isSome) =
      fun f => (t.flows f).isGroup && (slotPosition (t.flows f) ch).isSome := by
    funext f
    cases (t.flows f).isGroup with
    | false => rfl
    | true => rw [if_pos rfl, Option.isSome_map, Bool.true_and]
  rw [hpred]
  cases hfind : (List.finRange nFlows).find? fun f =>
      (t.flows f).isGroup && (slotPosition (t.flows f) ch).isSome with
  | none => rfl
  | some f =>
    have hgroup := List.find?_some hfind
    rw [Bool.and_eq_true] at hgroup
    rw [Option.bind_some, Option.bind_some, if_pos hgroup.1]

theorem slotPosition_some {s : FlowSlot} {pos : Nat} (h : slotPosition s ch = some pos) :
    ∃ c : Fin 8, c.val < s.nslots.val ∧ (s.chans c).toNat = ch ∧ pos = c.val + 1 := by
  obtain ⟨c, hc, hpos⟩ := Option.map_eq_some_iff.1 h
  have hslot := List.find?_some hc
  rw [Bool.and_eq_true, decide_eq_true_iff, beq_iff_eq] at hslot
  exact ⟨c, hslot.1, hslot.2, hpos.symm⟩

theorem mem_groupIds (h : (b.tx.flows f).isGroup = true) :
    (b.tx.flows f).extId.toNat ∈ b.groupIds :=
  List.mem_map_of_mem (List.mem_map_of_mem
    (List.mem_filter.2 ⟨List.mem_finRange f, h⟩))

/-- A bundle whose label is its own is the one its name is matched with. -/
theorem matchBundInst_eq {v : Nat} (hv : v ∈ b.groupIds)
    (hown : ∀ w ∈ b.groupIds, bundLabel v = bundLabel w → v = w) :
    matchBundInst b ((b.bundInst v).map lc) = some v := by
  rw [matchBundInst, if_pos (hasSuffix_bundInst b v)]
  cases hfind : b.groupIds.find? fun id => ieq ((b.bundInst v).map lc) (b.bundInst id) with
  | none =>
    have hself := List.find?_eq_none.1 hfind v hv
    exact absurd ((ieq_bundInst b v v).2 rfl) hself
  | some w =>
    have hmatch := List.find?_some hfind
    have hlabel := (ieq_bundInst b v w).1 hmatch
    rw [hown w (List.mem_of_find?_eq_some hfind) hlabel]

theorem decimal_slot : ∀ c : Fin 8, decimal (c.val + 1) = [digit (c.val + 1)] := by decide +kernel

/-- The key of a channel, and the slot it comes from. -/
theorem bundleKeys_carried (hf : firstCarrier b.tx ch = some f) :
    ∃ c : Fin 8, c.val < (b.tx.flows f).nslots.val ∧ ((b.tx.flows f).chans c).toNat = ch ∧
      bundleKeys (buildTxtChan b ch) =
        [bundleText (b.tx.flows f).extId.toNat (c.val + 1)] := by
  have hcarrier := findFlow_some hf
  rw [Bool.and_eq_true, Option.isSome_iff_exists] at hcarrier
  obtain ⟨-, pos, hpos⟩ := hcarrier
  obtain ⟨c, hslot, hchan, rfl⟩ := slotPosition_some hpos
  have hmod : ch % 2 ^ 16 = ch := Nat.mod_eq_of_lt (by omega)
  refine ⟨c, hslot, hchan, ?_⟩
  rw [bundleKeys_buildTxtChan, hmod, danteTxChanBundle_eq, hf, Option.bind_some, hpos]
  rfl

theorem bundleKeys_uncarried (hch : ch ≤ danteTxChannels) (hf : firstCarrier b.tx ch = none) :
    bundleKeys (buildTxtChan b ch) = [] := by
  have hchannels : danteTxChannels = 48 := rfl
  have hmod : ch % 2 ^ 16 = ch := Nat.mod_eq_of_lt (by omega)
  rw [bundleKeys_buildTxtChan, hmod, danteTxChanBundle_eq, hf]
  rfl

theorem isGroup_of_firstCarrier (hf : firstCarrier b.tx ch = some f) :
    (b.tx.flows f).isGroup = true := by
  have hcarrier := findFlow_some hf
  rw [Bool.and_eq_true] at hcarrier
  exact hcarrier.1

/-- With an id of at most two digits the key of a channel leads to its flow. -/
theorem leadsTo_of_lt (hf : firstCarrier b.tx ch = some f)
    (hid : (b.tx.flows f).extId.toNat < 100) :
    ∃ s, bundleKeys (buildTxtChan b ch) = [s] ∧ LeadsTo b ch s f := by
  obtain ⟨c, hslot, hchan, hkeys⟩ := bundleKeys_carried hf
  refine ⟨_, hkeys, ?_⟩
  obtain ⟨hlabel, hposition⟩ := keyLabel_bundleText (b.tx.flows f).extId.toNat (c.val + 1)
  have hown := fun w (_ : w ∈ b.groupIds) (h : bundLabel (b.tx.flows f).extId.toNat =
      bundLabel w) => ((bundLabel_eq_iff _ w).1 h).resolve_right fun hbig =>
    absurd hid (Nat.not_lt.2 hbig.1)
  refine ⟨⟨c, hslot, hchan, hposition.trans (decimal_slot c).symm⟩, ?_, ?_⟩
  · rw [hlabel, textLabel_eq hid]
    rfl
  · rw [hlabel, textLabel_eq hid]
    exact matchBundInst_eq (mem_groupIds (isGroup_of_firstCarrier hf)) hown

/-- Labels agree and tell the flows apart exactly if every flow that a channel names has an id
below 100 and no two active ids of three or more digits end in the same three. -/
theorem bundle_labels_agree (b : Board) :
    LabelsAgree b ↔
      (∀ ch, 1 ≤ ch → ch ≤ danteTxChannels → ∀ f, firstCarrier b.tx ch = some f →
        (b.tx.flows f).extId.toNat < 100) ∧
      ∀ v ∈ b.groupIds, ∀ w ∈ b.groupIds, 100 ≤ v → 100 ≤ w → v % 1000 = w % 1000 → v = w := by
  constructor
  · intro h
    refine ⟨fun ch hpos hch f hf => ?_, fun v hv w hw hbig hbig' hmod =>
      h.distinct v hv w hw ((bundLabel_eq_iff v w).2 (Or.inr ⟨hbig, hbig', hmod⟩))⟩
    obtain ⟨s, hs, hleads⟩ := h.carried ch hpos hch f hf
    obtain ⟨c, -, -, hkeys⟩ := bundleKeys_carried hf
    have hkey : s = bundleText (b.tx.flows f).extId.toNat (c.val + 1) :=
      List.singleton_inj.1 (hs.symm.trans hkeys)
    have hpublished := hleads.published
    rw [hkey, (keyLabel_bundleText _ _).1] at hpublished
    have hlabel := (instName_inj (length_textLabel _) (digits_bundLabel _).short .bund).1
      hpublished
    by_contra hbig
    exact textLabel_ne (Nat.not_lt.1 hbig) hlabel
  · rintro ⟨hsmall, hlast⟩
    refine ⟨fun ch hpos hch f hf => leadsTo_of_lt hf (hsmall ch hpos hch f hf),
      fun ch _ hch hf => bundleKeys_uncarried hch hf, fun v hv w hw h => ?_⟩
    rcases (bundLabel_eq_iff v w).1 h with heq | ⟨hbig, hbig', hmod⟩
    · exact heq
    · exact hlast v hv w hw hbig hbig' hmod

end Agree

/-- The device at boot, with channels 1 and 2 in the multicast flow `fid`. -/
def boardWithGroup (fid : BitVec 16) : Board :=
  { boardAtBoot with
    tx := (bindMulticast (danteTxInit boardAtBoot.tx) fid (fun c => BitVec.ofNat 16 (c.val + 1))
      ⟨2, two_slots⟩ 0 fun _ => (0, 0)).1 }

/-- Channel 1 of flow 100 names bundle `00`; the flow is published as bundle `100`, and a query
for the former is matched with none. -/
theorem bundle_labels_differ :
    (bundleKeys (buildTxtChan (boardWithGroup 100) 1) = [ascii "b.00=1"] ∧
      (boardWithGroup 100).groupIds = [100] ∧
      (boardWithGroup 100).inst (.bund 100) =
        ascii "100@N-Series-Switchover._netaudio-bund._udp.local" ∧
      matchBundInst (boardWithGroup 100)
        (((boardWithGroup 100).instName (ascii "00") .bund).map lc) = none) ∧
      ¬ LabelsAgree (boardWithGroup 100) := by
  have hkeys : bundleKeys (buildTxtChan (boardWithGroup 100) 1) = [ascii "b.00=1"] := by
    decide +kernel
  have hnone : matchBundInst (boardWithGroup 100)
      (((boardWithGroup 100).instName (ascii "00") .bund).map lc) = none := by decide +kernel
  refine ⟨⟨hkeys, by decide +kernel, by decide +kernel, hnone⟩, fun h => ?_⟩
  obtain ⟨s, hs, hleads⟩ := h.carried 1 (by decide) (by decide) 0 (by decide +kernel)
  have hkey : s = ascii "b.00=1" := List.singleton_inj.1 (hs.symm.trans hkeys)
  have hlabel : keyLabel (ascii "b.00=1") = ascii "00" := by decide
  have hmatched := hleads.matched
  rw [hkey, hlabel, hnone] at hmatched
  cases hmatched

end Mdns
end InfernoFpga
