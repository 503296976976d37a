import InfernoFpga.Packetizer.Frame

/-!
# Header — what the header of a packet is made of

The 51 header bytes are read off the registers one a cycle, so what holds of the registers on
each of these cycles holds of the header.  `BytesMeet` carries such a property of every byte along
the frame in progress.
-/

namespace InfernoFpga
namespace Packetizer

/-! ## Bytes as they are built -/

/-- Every byte built so far meets `P` at its position. -/
def BytesMeet (P : Nat → Byte → Prop) (f : Frame) : Prop :=
  ∀ j < f.bytes.length, P j (f.bytes.getD j 0)

section Build

variable {s : State} {i : Input} {f : Frame} {P : Nat → Byte → Prop}

theorem bytesMeet_nil (h : f.bytes = []) : BytesMeet P f := by
  intro j hj
  rw [h] at hj
  exact absurd hj (Nat.not_lt_zero j)

/-- A cycle adds one byte at most. -/
theorem bytesMeet_next (h : BytesMeet P f)
    (hcur : s.fsm = .build → P f.bytes.length (curByte s i)) :
    BytesMeet P (Frame.next s i f) := by
  cases hrestart : restart s i with
  | true => exact bytesMeet_nil (by simp [Frame.next, hrestart])
  | false =>
    by_cases hfsm : s.fsm = .build
    · intro j hj
      rw [bytes_build hfsm] at hj ⊢
      rw [getD_append_singleton]
      by_cases hlast : j = f.bytes.length
      · rw [if_pos hlast, hlast]
        exact hcur hfsm
      · rw [if_neg hlast]
        rw [List.length_append, List.length_singleton] at hj
        exact h j (by omega)
    · have hbytes : (Frame.next s i f).bytes = f.bytes := by simp [Frame.next, hrestart, hfsm]
      intro j hj
      rw [hbytes] at hj ⊢
      exact h j hj

/-- What `BUILD` has built so far is as long as its byte counter says. -/
theorem length_of_building (h : Assembled s f) (hfsm : s.fsm = .build) :
    f.bytes.length = s.byteIdx := by
  rw [Assembled, hfsm] at h
  exact h.length

/-- On the wire a header byte is as it was built. -/
theorem wireByte_meets (hserve : serveNow s i = true) (h : Assembled s f) (hmeet : BytesMeet P f)
    (hadm : Admissible s) {j : Nat} (hj : j < 4 * fLastIdx (cfgNow s)) :
    P j (Frame.wireByte (Frame.packet s f) j) := by
  have hfsm : s.fsm = .stream := stream_of_serveNow hserve
  have hbuilt := (packet_eq hfsm h hserve).1
  obtain ⟨half, -, htotal, hlast⟩ := shape_of_le (hadm s.streamIdx)
  rw [wireByte_packet hfsm h hserve hj]
  refine hmeet j ?_
  have htotal' : fTotal (cfgNow s) = 51 + 2 * half := htotal
  have hlast' : fLastIdx (cfgNow s) = 12 + half / 2 := hlast
  rw [hbuilt.length]
  omega

end Build

/-! ## The timestamp of a header -/

/-- Seconds and sample of the second of a sample count. -/
abbrev Stamp := Word × Word

/-- The bytes of a timestamp as they go on the wire. -/
def Stamp.bytes (a : Stamp) : List Byte :=
  [byteAt a.1 3, byteAt a.1 2, byteAt a.1 1, byteAt a.1 0,
    byteAt a.2 3, byteAt a.2 2, byteAt a.2 1, byteAt a.2 0]

/-- Where the timestamp is in the header. -/
abbrev stampPos : Nat := 43

/-- The timestamp that the registers of the builder give. -/
def headerStamp (s : State) : Stamp := (fTsSec s, fTsSub s)

/-- The timestamp of a packet on the wire. -/
def wireStamp (words : List Word) : Stamp :=
  let b := Frame.wireByte words
  (b 43 ++ b 44 ++ b 45 ++ b 46, b 47 ++ b 48 ++ b 49 ++ b 50)

/-- The timestamp is the end of the header. -/
theorem header_split (s : State) (i : Input) :
    header s i = (header s i).take 43 ++ (headerStamp s).bytes := rfl

theorem curByte_stamp {s : State} (i : Input) (h : 43 ≤ s.byteIdx) (hj : s.byteIdx < 51) :
    curByte s i = (headerStamp s).bytes.getD (s.byteIdx - 43) 0 := by
  have hlen : ((header s i).take 43).length = 43 := rfl
  have hbytes : (headerStamp s).bytes.length = 8 := rfl
  rw [curByte, if_pos hj, Nat.mod_eq_of_lt (by omega), header_split,
    List.getD_append_right _ _ _ _ (by omega), hlen,
    List.getD_eq_getElem _ _ (by omega), List.getD_eq_getElem _ _ (by omega)]

theorem bytes_word (x : Word) : byteAt x 3 ++ byteAt x 2 ++ byteAt x 1 ++ byteAt x 0 = x := by
  ext k hk
  simp [byteAt]
  grind

/-- A byte of the timestamp `a`, wherever it is one. -/
def StampByte (a : Stamp) (j : Nat) (b : Byte) : Prop :=
  43 ≤ j → j < 51 → b = a.bytes.getD (j - 43) 0

/-- The timestamp on the wire is the one whose bytes were built. -/
theorem wireStamp_eq {words : List Word} {a : Stamp}
    (h : ∀ j < 51, StampByte a j (Frame.wireByte words j)) : wireStamp words = a := by
  have hbyte : ∀ j, 43 ≤ j → j < 51 → Frame.wireByte words j = a.bytes.getD (j - 43) 0 :=
    fun j h1 h2 => h j h2 h1 h2
  have hsec := bytes_word a.1
  have hsub := bytes_word a.2
  simp only [wireStamp]
  rw [hbyte 43 (by decide) (by decide), hbyte 44 (by decide) (by decide),
    hbyte 45 (by decide) (by decide), hbyte 46 (by decide) (by decide),
    hbyte 47 (by decide) (by decide), hbyte 48 (by decide) (by decide),
    hbyte 49 (by decide) (by decide), hbyte 50 (by decide) (by decide)]
  exact Prod.ext hsec hsub

end Packetizer
end InfernoFpga
