import InfernoFpga.Firmware.UdpRoundTrip
import InfernoFpga.Lib.Fifo

/-!
# ArpCache — what a lookup finds

A received frame that carries a sender's address teaches the MAC of it.  An address that is in the
table gets the new MAC and keeps its entry; one that is not takes the entry that was taken longest
ago.  So the table is read off what was taught: it has the last addresses that took an entry, each
with the MAC that was taught for it last.
-/

namespace InfernoFpga
namespace Firmware

open Lib

/-! ## What is taught -/

/-- An address that may be in the table. -/
def Ip.learnable (ip : Ip) : Bool := !(ip.isMcast || ip.isBcast || ip.isZero)

/-- An ARP frame for Ethernet and IPv4. -/
def RxFrame.isArp (f : RxFrame) : Prop :=
  f.etherType = arpEthertype ∧ ethHdrLen + 28 ≤ f.len ∧ Mem.rd16 f.bytes ethHdrLen = 1 ∧
    Mem.rd16 f.bytes (ethHdrLen + 2) = ipv4Ethertype ∧ f.bytes (ethHdrLen + 4) = 6 ∧
      f.bytes (ethHdrLen + 5) = 4

instance (f : RxFrame) : Decidable f.isArp :=
  inferInstanceAs (Decidable (_ ∧ _ ∧ _ ∧ _ ∧ _ ∧ _))

instance (n : Net) (f : RxFrame) : Decidable (Admitted n f) :=
  decidable_of_iff (f.etherType = ipv4Ethertype ∧ ethHdrLen + ipHdrLen ≤ f.len ∧ f.version = 4 ∧
      ipHdrLen ≤ f.ihl ∧ ethHdrLen + f.ihl ≤ f.len ∧ ethHdrLen + f.total ≤ f.len ∧
        ipForUs n f.dstIp = true)
    ⟨fun ⟨h₁, h₂, h₃, h₄, h₅, h₆, h₇⟩ => ⟨h₁, h₂, h₃, h₄, h₅, h₆, h₇⟩,
      fun h => ⟨h.etherType, h.hdr, h.version, h.ihl, h.options, h.total, h.forUs⟩⟩

/-- Whose MAC a frame carries: the sender's of an ARP frame, the source's of an IPv4 frame for
us. -/
def sender (n : Net) (f : RxFrame) : Option (Ip × Mac) :=
  if f.isArp then
    some (Ip.read f.bytes (ethHdrLen + 14), Mac.read f.bytes (ethHdrLen + 8))
  else if Admitted n f then some (f.srcIp, f.srcMac)
  else none

/-- What has been taught since the stack was last initialised. -/
def lessons (n : Net) (op : StackOp) (taught : List (Ip × Mac)) : List (Ip × Mac) :=
  match op with
  | .init .. => []
  | .receive f => taught ++ (sender n f).toList.filter fun l => l.1.learnable
  | _ => taught

def taughtAfter (slots : Fin 2 → Mem) (ops : List StackOp) : List (Ip × Mac) :=
  (run (watch stackStep lessons) (Net.boot slots, []) ops).2

/-- The MAC that was taught last for an address. -/
def lastTaught (taught : List (Ip × Mac)) (ip : Ip) : Option Mac :=
  (taught.reverse.find? fun l => l.1 == ip).map Prod.snd

/-- The addresses in the order in which they took an entry. -/
def entered (taught : List (Ip × Mac)) : List Ip := Fifo.entered arpCacheN (taught.map Prod.fst)

/-- The addresses that took an entry after `ip` did. -/
def newerThan (taught : List (Ip × Mac)) (ip : Ip) : List Ip := Fifo.newer (entered taught) ip

section Taught

variable {taught : List (Ip × Mac)} {ip x : Ip} {mac : Mac}

theorem lastTaught_concat (taught : List (Ip × Mac)) (ip x : Ip) (mac : Mac) :
    lastTaught (taught ++ [(ip, mac)]) x = if ip = x then some mac else lastTaught taught x := by
  rw [lastTaught, List.reverse_append, List.reverse_singleton, List.singleton_append,
    List.find?_cons]
  by_cases h : ip = x
  · rw [if_pos h, h]
    simp
  · have hne : (ip == x) = false := beq_false_of_ne h
    rw [if_neg h]
    simp only [hne]
    rfl

theorem lastTaught_eq_none (h : x ∉ taught.map Prod.fst) : lastTaught taught x = none := by
  rw [lastTaught, Option.map_eq_none_iff, List.find?_eq_none]
  intro l hl hx
  exact h (List.mem_map.2 ⟨l, List.mem_reverse.1 hl, beq_iff_eq.1 hx⟩)

theorem entered_concat (taught : List (Ip × Mac)) (ip : Ip) (mac : Mac) :
    entered (taught ++ [(ip, mac)]) = Fifo.enter arpCacheN (entered taught) ip := by
  rw [entered, List.map_append, List.map_singleton]
  exact Fifo.entered_concat _ ip

end Taught

/-! ## The table -/

/-- The address in a slot. -/
def keyAt (cache : Fin arpCacheN → ArpEntry) (s : Nat) : Option Ip :=
  if h : s < arpCacheN then
    if (cache ⟨s, h⟩).valid then some (cache ⟨s, h⟩).ip else none
  else none

/-- The table has what was taught; `first` is the entry that was taken first. -/
structure Cached (first : Nat) (n : Net) (taught : List (Ip × Mac)) : Prop where
  keys : Fifo.Holds arpCacheN first (keyAt n.arpCache) (entered taught)
  next : n.arpNext.val = (first + (entered taught).length) % arpCacheN
  macs : ∀ i, (n.arpCache i).valid = true →
    lastTaught taught (n.arpCache i).ip = some (n.arpCache i).mac
  learnable : ∀ l ∈ taught, l.1.learnable = true

section Table

variable {n : Net} {taught : List (Ip × Mac)} {first : Nat} {ip : Ip} {mac : Mac}

theorem keyAt_fin (cache : Fin arpCacheN → ArpEntry) (i : Fin arpCacheN) :
    keyAt cache i = if (cache i).valid then some (cache i).ip else none := by
  rw [keyAt, dif_pos i.isLt]

theorem keyAt_eq_some {cache : Fin arpCacheN → ArpEntry} {i : Fin arpCacheN} :
    keyAt cache i = some ip ↔ (cache i).valid = true ∧ (cache i).ip = ip := by
  rw [keyAt_fin]
  cases (cache i).valid <;> simp

theorem keyAt_update (cache : Fin arpCacheN → ArpEntry) (i : Fin arpCacheN) (e : ArpEntry) :
    keyAt (Function.update cache i e) =
      Function.update (keyAt cache) i (if e.valid then some e.ip else none) := by
  funext s
  by_cases hs : s < arpCacheN
  · rw [keyAt, dif_pos hs]
    rcases eq_or_ne (⟨s, hs⟩ : Fin arpCacheN) i with rfl | hne
    · rw [Function.update_self, Function.update_self]
    · have hval : s ≠ i.val := fun h => hne (Fin.ext h)
      rw [Function.update_of_ne hne, Function.update_of_ne hval, keyAt, dif_pos hs]
  · have hval : s ≠ i.val := fun h => hs (h ▸ i.isLt)
    rw [Function.update_of_ne hval, keyAt, keyAt, dif_neg hs, dif_neg hs]

theorem arpFind_some {i : Fin arpCacheN} (h : arpFind n ip = some i) :
    keyAt n.arpCache i = some ip := by
  have hmatch := List.find?_some h
  rw [Bool.and_eq_true, beq_iff_eq] at hmatch
  exact keyAt_eq_some.2 hmatch

theorem arpFind_none (h : arpFind n ip = none) (i : Fin arpCacheN) :
    keyAt n.arpCache i ≠ some ip := by
  intro hkey
  have hmiss := List.find?_eq_none.1 h i (List.mem_finRange i)
  have hmatch := keyAt_eq_some.1 hkey
  rw [Bool.not_eq_true, Bool.and_eq_false_iff] at hmiss
  rcases hmiss with hvalid | hip
  · rw [hmatch.1] at hvalid
    cases hvalid
  · exact (beq_eq_false_iff_ne.1 hip) hmatch.2

namespace Cached

/-- An address has at most one entry. -/
theorem alone (h : Cached first n taught) {i j : Fin arpCacheN}
    (hi : keyAt n.arpCache i = some ip) (hj : keyAt n.arpCache j = some ip) : i = j :=
  Fin.ext (h.keys.slot_unique (Fifo.nodup_resident _) i.isLt j.isLt hi hj)

theorem learnable_concat (h : Cached first n taught) (hip : ip.learnable = true) :
    ∀ l ∈ taught ++ [(ip, mac)], l.1.learnable = true := by
  intro l hl
  rcases List.mem_append.1 hl with hl | hl
  · exact h.learnable l hl
  · rw [List.mem_singleton.1 hl]
    exact hip

theorem resident_iff (h : Cached first n taught) :
    ip ∈ Fifo.resident arpCacheN (entered taught) ↔ ∃ i, arpFind n ip = some i := by
  constructor
  · intro hres
    obtain ⟨s, hs, hkey⟩ := h.keys.slot_of_resident hres
    cases hfind : arpFind n ip with
    | some i => exact ⟨i, rfl⟩
    | none => exact absurd hkey (arpFind_none hfind ⟨s, hs⟩)
  · rintro ⟨i, hfind⟩
    exact h.keys.resident_of_slot i.isLt (arpFind_some hfind)

/-- A MAC that is written into a slot belongs to the address of that slot alone. -/
theorem macs_update {i : Fin arpCacheN} {e : ArpEntry}
    (hmacs : ∀ j, (n.arpCache j).valid = true →
      lastTaught taught (n.arpCache j).ip = some (n.arpCache j).mac)
    (hip : e.ip = ip) (hmac : e.mac = mac)
    (hother : ∀ j, j ≠ i → keyAt n.arpCache j ≠ some ip) (j : Fin arpCacheN)
    (hj : (Function.update n.arpCache i e j).valid = true) :
    lastTaught (taught ++ [(ip, mac)]) (Function.update n.arpCache i e j).ip =
      some (Function.update n.arpCache i e j).mac := by
  rw [lastTaught_concat]
  rcases eq_or_ne j i with rfl | hji
  · rw [Function.update_self, hip, hmac, if_pos rfl]
  · rw [Function.update_of_ne hji] at hj ⊢
    have hne : ip ≠ (n.arpCache j).ip := by
      intro heq
      exact hother j hji (keyAt_eq_some.2 ⟨hj, heq.symm⟩)
    rw [if_neg hne]
    exact hmacs j hj

/-- An address that has an entry keeps it, with the MAC it is taught. -/
theorem learn_known (h : Cached first n taught) (hip : ip.learnable = true)
    {i : Fin arpCacheN} (hfind : arpFind n ip = some i) :
    Cached first { n with arpCache := Function.update n.arpCache i { n.arpCache i with mac := mac } }
      (taught ++ [(ip, mac)]) := by
  have hentered : entered (taught ++ [(ip, mac)]) = entered taught := by
    rw [entered_concat, Fifo.enter, if_pos (h.resident_iff.2 ⟨i, hfind⟩)]
  have hkey := arpFind_some hfind
  have hsame : keyAt (Function.update n.arpCache i { n.arpCache i with mac := mac }) =
      keyAt n.arpCache := by
    rw [keyAt_update, Function.update_eq_self_iff]
    exact (keyAt_fin n.arpCache i).symm
  refine ⟨?_, ?_, ?_, h.learnable_concat hip⟩
  · show Fifo.Holds _ _ (keyAt (Function.update n.arpCache i _)) _
    rw [hsame, hentered]
    exact h.keys
  · rw [hentered]
    exact h.next
  · exact macs_update h.macs (keyAt_eq_some.1 hkey).2 rfl fun j hji hj =>
      hji (h.alone hj hkey)

/-- An address without an entry takes the one that is next. -/
theorem learn_new (h : Cached first n taught) (hip : ip.learnable = true)
    (hfind : arpFind n ip = none) :
    Cached first { n with
        arpCache := Function.update n.arpCache n.arpNext ⟨ip, mac, true⟩
        arpNext := n.arpNext + 1 } (taught ++ [(ip, mac)]) := by
  have habsent : ip ∉ Fifo.resident arpCacheN (entered taught) := by
    intro hres
    rcases h.resident_iff.1 hres with ⟨i, hi⟩
    rw [hfind] at hi
    cases hi
  have hentered : entered (taught ++ [(ip, mac)]) = entered taught ++ [ip] := by
    rw [entered_concat, Fifo.enter, if_neg habsent]
  refine ⟨?_, ?_, ?_, h.learnable_concat hip⟩
  · show Fifo.Holds _ _ (keyAt (Function.update n.arpCache n.arpNext _)) _
    rw [keyAt_update, hentered, h.next, if_pos rfl]
    have hpush := Ring.Holds.push h.keys (some ip)
    rw [List.length_map] at hpush
    rw [Fifo.Holds, List.map_append, List.map_singleton]
    exact hpush
  · show (n.arpNext + 1).val = _
    have hnext : n.arpNext.val = (first + (entered taught).length) % 6 := h.next
    rw [hentered, List.length_append, List.length_singleton, Fin.val_add]
    show (n.arpNext.val + 1) % 6 = (first + ((entered taught).length + 1)) % 6
    omega
  · exact macs_update h.macs rfl rfl fun j _ => arpFind_none hfind j

/-- An address that is taught gets its MAC, and an entry if it has none. -/
theorem learn (h : Cached first n taught) (hip : ip.learnable = true) :
    Cached first (arpLearn n ip mac) (taught ++ [(ip, mac)]) := by
  have hdrop : ¬ ((ip.isMcast || ip.isBcast || ip.isZero) = true) := by
    simpa [Ip.learnable] using hip
  rw [arpLearn, if_neg hdrop]
  cases hfind : arpFind n ip with
  | some i => exact h.learn_known hip hfind
  | none => exact h.learn_new hip hfind

/-- The table after an initialisation: empty, and it is filled on from where it was. -/
theorem init (n : Net) (mac : Mac) (ip : Option Ip) (prefixLen : UInt8) :
    Cached n.arpNext.val (netInit n mac ip prefixLen) [] where
  keys := by
    have hempty : keyAt (netInit n mac ip prefixLen).arpCache = fun _ => none := by
      funext s
      rw [keyAt]
      split <;> rfl
    rw [hempty]
    exact Ring.Holds.start _ _ _
  next := (Nat.mod_eq_of_lt n.arpNext.isLt).symm
  macs := fun _ hvalid => by cases hvalid
  learnable := fun _ hl => absurd hl List.not_mem_nil

/-- Whatever leaves the table alone keeps it. -/
theorem congr {n' : Net} (h : Cached first n taught) (hcache : n'.arpCache = n.arpCache)
    (hnext : n'.arpNext = n.arpNext) : Cached first n' taught where
  keys := hcache ▸ h.keys
  next := hnext ▸ h.next
  macs := hcache ▸ h.macs
  learnable := h.learnable

/-- What a lookup finds. -/
theorem lookup (h : Cached first n taught) (hip : ip.learnable = true) :
    arpResolve n ip =
      if (newerThan taught ip).toFinset.card < arpCacheN then lastTaught taught ip else none := by
  have hproper : ip.isMcast = false ∧ ip.isBcast = false := by
    rw [Ip.learnable, Bool.not_eq_true', Bool.or_eq_false_iff, Bool.or_eq_false_iff] at hip
    exact hip.1
  rw [arpResolve, hproper.1, hproper.2, if_neg Bool.false_ne_true, if_neg Bool.false_ne_true]
  by_cases hcame : ip ∈ taught.map Prod.fst
  · have hresident : ip ∈ Fifo.resident arpCacheN (entered taught) ↔
        (newerThan taught ip).toFinset.card < arpCacheN := Fifo.mem_resident_entered hcame
    cases hfind : arpFind n ip with
    | some i =>
      have hslot := keyAt_eq_some.1 (arpFind_some hfind)
      have hmac := h.macs i hslot.1
      rw [hslot.2] at hmac
      rw [if_pos (hresident.1 (h.resident_iff.2 ⟨i, hfind⟩)), hmac]
      rfl
    | none =>
      refine (if_neg fun hroom => ?_).symm
      obtain ⟨i, hi⟩ := h.resident_iff.1 (hresident.2 hroom)
      rw [hfind] at hi
      cases hi
  · -- an address that has not been taught has no entry
    rw [lastTaught_eq_none hcame, ite_self]
    cases hfind : arpFind n ip with
    | none => rfl
    | some i =>
      have hentered := Fifo.mem_of_mem_resident (h.resident_iff.2 ⟨i, hfind⟩)
      exact absurd (Fifo.mem_entered.1 hentered) hcame

end Cached

end Table

/-! ## Everything else leaves the table alone -/

/-- The two states have the same table. -/
structure SameCache (n n' : Net) : Prop where
  cache : n'.arpCache = n.arpCache
  next : n'.arpNext = n.arpNext

section Frame

variable (n : Net)

theorem SameCache.trans {n n' n'' : Net} (h : SameCache n n') (h' : SameCache n' n'') :
    SameCache n n'' :=
  ⟨h'.cache.trans h.cache, h'.next.trans h.next⟩

theorem Cached.same {n n' : Net} {first : Nat} {taught : List (Ip × Mac)}
    (h : Cached first n taught) (hsame : SameCache n n') : Cached first n' taught :=
  h.congr hsame.cache hsame.next

theorem sameCache_netArpLookup (ip : Ip) : SameCache n (netArpLookup n ip).1 := by
  rw [netArpLookup]
  split
  · exact ⟨rfl, rfl⟩
  · exact ⟨rfl, rfl⟩

theorem sameCache_netUdpCommit (dst : Ip) (dport sport len : Nat) (tos : UInt8) :
    SameCache n (netUdpCommit n dst dport sport len tos).1 := by
  have hlookup := sameCache_netArpLookup n dst
  rw [netUdpCommit]
  split
  · exact ⟨rfl, rfl⟩
  · split
    · rename_i n' heq
      rw [heq] at hlookup
      exact hlookup.trans ⟨rfl, rfl⟩
    · rename_i n' dmac heq
      rw [heq] at hlookup
      exact hlookup.trans ⟨rfl, rfl⟩

theorem sameCache_netUdpSend (dst : Ip) (dport sport : Nat) (payload : List UInt8) (tos : UInt8) :
    SameCache n (netUdpSend n dst dport sport payload tos).1 := by
  have hlookup := sameCache_netArpLookup n dst
  rw [netUdpSend]
  split
  · exact ⟨rfl, rfl⟩
  · split
    · rename_i n' heq
      rw [heq] at hlookup
      exact hlookup.trans ⟨rfl, rfl⟩
    · rename_i n' dmac heq
      rw [heq] at hlookup
      have hstore : SameCache n' (txStore n' udpPayloadOff payload) := ⟨rfl, rfl⟩
      exact hlookup.trans (hstore.trans (sameCache_netUdpCommit _ dst dport sport _ tos))

theorem sameCache_netUdpBind (port : Nat) (fn : Handler) :
    SameCache n (netUdpBind n port fn).1 := by
  rw [netUdpBind]
  split
  · exact ⟨rfl, rfl⟩
  · split <;> exact ⟨rfl, rfl⟩

theorem sameCache_igmpRx (p : Mem) (len : Nat) : SameCache n (igmpRx n p len) := by
  have hreports : ∀ (groups : List Ip) (m : Net), SameCache n m →
      SameCache n (groups.foldl
        (fun n g => if (Ip.read p 4).isZero || g == Ip.read p 4 then igmpReport n g else n) m) := by
    intro groups
    induction groups with
    | nil => exact fun m h => h
    | cons g groups ih =>
      intro m h
      rw [List.foldl_cons]
      apply ih
      split
      · exact h.trans ⟨rfl, rfl⟩
      · exact h
  rw [igmpRx]
  split
  · exact ⟨rfl, rfl⟩
  · dsimp only
    split
    · exact ⟨rfl, rfl⟩
    · exact hreports _ _ ⟨rfl, rfl⟩

theorem sameCache_icmpRx (src : Ip) (p : Mem) (len : Nat) : SameCache n (icmpRx n src p len) := by
  rw [icmpRx]
  split
  · exact ⟨rfl, rfl⟩
  split
  · exact ⟨rfl, rfl⟩
  dsimp only
  -- the reply lies in the slot when its receiver is looked up
  generalize hbuilt : txStore _ (udpPayloadOff + 2) (Mem.be16 _) = built
  have hsame : SameCache n built := by
    rw [← hbuilt]
    exact ⟨rfl, rfl⟩
  have hlookup := hsame.trans (sameCache_netArpLookup built src)
  split
  · rename_i n' heq
    rw [heq] at hlookup
    exact hlookup
  · rename_i n' dmac heq
    rw [heq] at hlookup
    exact hlookup.trans ⟨rfl, rfl⟩

theorem sameCache_rxProto (f : RxFrame) : SameCache n (rxProto n f).net := by
  rw [rxProto]
  split
  · exact ⟨rfl, rfl⟩
  split
  · exact ⟨rfl, rfl⟩
  split
  · split
    · exact ⟨rfl, rfl⟩
    split <;> exact ⟨rfl, rfl⟩
  · exact ⟨rfl, rfl⟩

end Frame

/-! ## Received frames -/

section Receive

variable {n : Net} {taught : List (Ip × Mac)} {first : Nat}

/-- `arp_learn` passes over addresses that are not to be learned. -/
theorem Cached.teach (h : Cached first n taught) (l : Ip × Mac) :
    Cached first (arpLearn n l.1 l.2) (taught ++ [l].filter fun l => l.1.learnable) := by
  cases hip : l.1.learnable with
  | true =>
    have hkept : [l].filter (fun l => l.1.learnable) = [l] := by simp [hip]
    rw [hkept]
    exact h.learn hip
  | false =>
    have hdropped : [l].filter (fun l => l.1.learnable) = [] := by simp [hip]
    rw [Ip.learnable, Bool.not_eq_false'] at hip
    rw [hdropped, List.append_nil, arpLearn, if_pos hip]
    exact h

theorem Cached.arpRx (h : Cached first n taught) (f : RxFrame)
    (htype : f.etherType = arpEthertype) :
    Cached first (Firmware.arpRx n f.bytes f.len)
      (taught ++ (sender n f).toList.filter fun l => l.1.learnable) := by
  have hnotIp : ¬ Admitted n f := by
    intro hadm
    have hip := hadm.etherType
    rw [htype] at hip
    cases hip
  by_cases harp : f.isArp
  · rw [sender, if_pos harp]
    obtain ⟨-, hlen, hhw, hproto, hhlen, hplen⟩ := harp
    rw [Firmware.arpRx, if_neg (by omega), if_neg (by simp [hhw, hproto, hhlen, hplen])]
    have hlearnt := h.teach (Ip.read f.bytes (ethHdrLen + 14), Mac.read f.bytes (ethHdrLen + 8))
    dsimp only at hlearnt ⊢
    split
    · exact hlearnt.same ⟨rfl, rfl⟩
    · exact hlearnt.same ⟨rfl, rfl⟩
  · rw [sender, if_neg harp, if_neg hnotIp]
    have hdropped : Firmware.arpRx n f.bytes f.len = n := by
      rw [Firmware.arpRx]
      by_cases hlen : f.len < ethHdrLen + 28
      · exact if_pos hlen
      · dsimp only
        rw [if_neg hlen]
        refine if_pos ?_
        by_contra hok
        rw [not_or, not_or, not_or, not_not, not_not, not_not, not_not] at hok
        exact harp ⟨htype, Nat.le_of_not_lt hlen, hok⟩
    rw [hdropped, Option.toList_none, List.filter_nil, List.append_nil]
    exact h

theorem Cached.rxFrame (h : Cached first n taught) (f : RxFrame) :
    Cached first (netRxFrame n f).net
      (taught ++ (sender n f).toList.filter fun l => l.1.learnable) := by
  by_cases hadm : Admitted n f
  · -- an IPv4 frame for us teaches before its protocol is looked at
    have harp : ¬ f.isArp := by
      intro harp
      have htype := harp.1
      rw [hadm.etherType] at htype
      cases htype
    have hcounted : SameCache n { n with stats := { n.stats with rxIp := n.stats.rxIp + 1 } } :=
      ⟨rfl, rfl⟩
    rw [netRxFrame_of_admitted hadm, sender, if_neg harp, if_pos hadm]
    exact ((h.same hcounted).teach (f.srcIp, f.srcMac)).same (sameCache_rxProto _ f)
  by_cases htype : f.etherType = arpEthertype
  · by_cases hlen : f.len < ethHdrLen
    · have hshort : netRxFrame n f = ⟨n, false, none⟩ := if_pos hlen
      have hdropped : Firmware.arpRx n f.bytes f.len = n :=
        if_pos (Nat.lt_of_lt_of_le hlen (Nat.le_add_right _ _))
      have harp := h.arpRx f htype
      rw [hdropped] at harp
      rw [hshort]
      exact harp
    · have harp : netRxFrame n f = ⟨Firmware.arpRx n f.bytes f.len, true, none⟩ := by
        rw [netRxFrame, if_neg hlen, if_pos htype]
      rw [harp]
      exact h.arpRx f htype
  · obtain ⟨stats, consumed, hrefused⟩ := netRxFrame_of_refused htype hadm
    rw [hrefused, sender, if_neg fun harp : f.isArp => htype harp.1, if_neg hadm,
      Option.toList_none, List.filter_nil, List.append_nil]
    exact h.same ⟨rfl, rfl⟩

theorem Cached.receive (h : Cached first n taught) (f : RxFrame) :
    Cached first (netReceive n f)
      (taught ++ (sender n f).toList.filter fun l => l.1.learnable) := by
  have hframe := h.rxFrame f
  rw [netReceive]
  split
  · rename_i c _
    refine hframe.same ?_
    cases c with
    | icmp src off len =>
      exact sameCache_icmpRx (netRxFrame n f).net src (fun k => f.bytes (off + k)) len
    | igmp off len =>
      exact sameCache_igmpRx (netRxFrame n f).net (fun k => f.bytes (off + k)) len
    | udp fn src dst sport off len => exact ⟨rfl, rfl⟩
  · exact hframe

end Receive

/-! ## Every run -/

theorem cached_stackStep {n : Net} {taught : List (Ip × Mac)} {first : Nat}
    (h : Cached first n taught) (op : StackOp) :
    ∃ first', Cached first' (stackStep n op) (lessons n op taught) := by
  cases op with
  | init mac ip prefixLen => exact ⟨n.arpNext.val, Cached.init n mac ip prefixLen⟩
  | setIp ip prefixLen => exact ⟨first, h.same ⟨rfl, rfl⟩⟩
  | bind port fn => exact ⟨first, h.same (sameCache_netUdpBind n port.toNat fn)⟩
  | join group =>
    refine ⟨first, h.same ?_⟩
    show SameCache n (netIgmpJoin n group).1
    rw [netIgmpJoin]
    split
    · exact ⟨rfl, rfl⟩
    · split <;> exact ⟨rfl, rfl⟩
  | lookup ip => exact ⟨first, h.same (sameCache_netArpLookup n ip)⟩
  | fill a bs => exact ⟨first, h.same ⟨rfl, rfl⟩⟩
  | commit dst dport sport len tos =>
    exact ⟨first, h.same (sameCache_netUdpCommit n dst _ _ len tos)⟩
  | send dst dport sport payload tos =>
    exact ⟨first, h.same (sameCache_netUdpSend n dst _ _ payload tos)⟩
  | receive f => exact ⟨first, h.receive f⟩

theorem cached_stackAfter (slots : Fin 2 → Mem) (ops : List StackOp) :
    ∃ first, Cached first (stackAfter slots ops) (taughtAfter slots ops) := by
  have hrun := run_invariant (watch stackStep lessons)
    (P := fun p => ∃ first, Cached first p.1 p.2)
    (fun p op ⟨_, h⟩ => cached_stackStep h op) ops
    (s := (Net.boot slots, [])) ⟨0, Cached.init (Net.boot slots) ⟨0, 0, 0, 0, 0, 0⟩ none 0⟩
  rw [run_watch_fst] at hrun
  exact hrun

theorem netArpLookup_snd (n : Net) (ip : Ip) : (netArpLookup n ip).2 = arpResolve n ip := by
  rw [netArpLookup]
  split
  · rename_i mac heq
    exact heq.symm
  · rename_i heq
    exact heq.symm

/-- No address has two entries. -/
def AddressesAlone (n : Net) : Prop :=
  ∀ i j, (n.arpCache i).valid = true → (n.arpCache j).valid = true →
    (n.arpCache i).ip = (n.arpCache j).ip → i = j

/-- No entry is of a group, the broadcast address or no address. -/
def AddressesProper (n : Net) : Prop :=
  ∀ i, (n.arpCache i).valid = true → (n.arpCache i).ip.isMcast = false ∧
    (n.arpCache i).ip.isBcast = false ∧ (n.arpCache i).ip.isZero = false

theorem Cached.addresses {n : Net} {taught : List (Ip × Mac)} {first : Nat}
    (h : Cached first n taught) : AddressesAlone n ∧ AddressesProper n := by
  constructor
  · intro i j hi hj hij
    exact h.alone (keyAt_eq_some.2 ⟨hi, hij⟩) (keyAt_eq_some.2 ⟨hj, rfl⟩)
  · intro i hi
    have hkey : keyAt n.arpCache i = some (n.arpCache i).ip := keyAt_eq_some.2 ⟨hi, rfl⟩
    have hentered := Fifo.mem_of_mem_resident (h.keys.resident_of_slot i.isLt hkey)
    obtain ⟨l, hl, heq⟩ := List.mem_map.1 (Fifo.mem_entered.1 hentered)
    have hlearnable := h.learnable l hl
    rw [heq, Ip.learnable, Bool.not_eq_true', Bool.or_eq_false_iff,
      Bool.or_eq_false_iff] at hlearnable
    exact ⟨hlearnable.1.1, hlearnable.1.2, hlearnable.2⟩

/-- Over every run: an address has at most one entry, only addresses of hosts have one, and a
lookup finds the MAC taught last until as many distinct addresses as there is room for have taken
an entry after the address did. -/
theorem arp_cache (slots : Fin 2 → Mem) (ops : List StackOp) :
    AddressesAlone (stackAfter slots ops) ∧ AddressesProper (stackAfter slots ops) ∧
      ∀ ip, ip.learnable = true → (netArpLookup (stackAfter slots ops) ip).2 =
        if (newerThan (taughtAfter slots ops) ip).toFinset.card < arpCacheN then
          lastTaught (taughtAfter slots ops) ip
        else none := by
  obtain ⟨first, hcached⟩ := cached_stackAfter slots ops
  obtain ⟨halone, hproper⟩ := hcached.addresses
  refine ⟨halone, hproper, fun ip hip => ?_⟩
  rw [netArpLookup_snd]
  exact hcached.lookup hip

end Firmware
end InfernoFpga
