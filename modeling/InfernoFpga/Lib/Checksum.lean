import InfernoFpga.Lib.Mem

/-!
# Checksum — the ones'-complement checksum of the internet protocols

A block of bytes is read as big-endian 16-bit words, an odd last byte padded with a zero, and the
words are added with end-around carry.  A block verifies if the sum is all ones.  An encoder
leaves the checksum field zero, sums the block, and stores the complement of the sum in the
field; a field at an even offset then makes the block verify, whatever the rest of it is.
-/

namespace InfernoFpga
namespace Lib
namespace Checksum

/-! ## Ones'-complement addition -/

/-- Addition of 16-bit words with end-around carry. -/
def onesAdd (a b : Nat) : Nat :=
  if a + b < 65536 then a + b else a + b - 65535

/-- The ones'-complement sum of a block. -/
def onesSum : List UInt8 → Nat
  | hi :: lo :: rest => onesAdd (hi.toNat * 256 + lo.toNat) (onesSum rest)
  | [hi] => hi.toNat * 256
  | [] => 0

/-- A receiver accepts a block whose words add up to all ones. -/
def Verifies (bs : List UInt8) : Prop := onesSum bs = 65535

instance (bs : List UInt8) : Decidable (Verifies bs) :=
  inferInstanceAs (Decidable (onesSum bs = 65535))

/-- The plain sum of the words. -/
def wordSum : List UInt8 → Nat
  | hi :: lo :: rest => hi.toNat * 256 + lo.toNat + wordSum rest
  | [hi] => hi.toNat * 256
  | [] => 0

/-- A plain sum with all its carries brought around: the residue modulo 65535, where a sum that
is not zero never becomes zero. -/
def endAround (s : Nat) : Nat :=
  if s = 0 then 0 else (s - 1) % 65535 + 1

theorem endAround_of_le {s : Nat} (h : s ≤ 65535) : endAround s = s := by
  unfold endAround
  split <;> omega

theorem onesAdd_endAround {a b : Nat} (h : a ≤ 65535) :
    onesAdd a (endAround b) = endAround (a + b) := by
  have hround : ∀ s, endAround s = if s = 0 then 0 else (s - 1) % 65535 + 1 := fun _ => rfl
  rw [onesAdd, hround b, hround (a + b)]
  by_cases hb : b = 0
  · rw [if_pos hb]
    split <;> split <;> omega
  · have hab : ¬ a + b = 0 := by omega
    rw [if_neg hb, if_neg hab]
    split <;> omega

/-- Adding words one after the other brings around the carries of their plain sum. -/
theorem onesSum_eq : ∀ bs : List UInt8, onesSum bs = endAround (wordSum bs)
  | [] => rfl
  | [hi] => by
      have hhi := hi.toNat_lt
      exact (endAround_of_le (show hi.toNat * 256 ≤ 65535 by omega)).symm
  | hi :: lo :: rest => by
      have hhi := hi.toNat_lt
      have hlo := lo.toNat_lt
      calc onesSum (hi :: lo :: rest)
          = onesAdd (hi.toNat * 256 + lo.toNat) (endAround (wordSum rest)) := by
            rw [onesSum, onesSum_eq rest]
        _ = endAround (hi.toNat * 256 + lo.toNat + wordSum rest) :=
            onesAdd_endAround (by omega)
        _ = endAround (wordSum (hi :: lo :: rest)) := rfl

/-! ## Filling in a checksum -/

/-- Words do not straddle a cut at an even offset. -/
theorem wordSum_append : ∀ (front back : List UInt8), front.length % 2 = 0 →
    wordSum (front ++ back) = wordSum front + wordSum back
  | [], _, _ => (Nat.zero_add _).symm
  | [_], _, h => absurd h (by simp)
  | hi :: lo :: rest, back, h => by
      have hrest : rest.length % 2 = 0 := by
        simp only [List.length_cons] at h
        omega
      simp only [List.cons_append, wordSum]
      rw [wordSum_append rest back hrest]
      omega

/-- A word contributes at most `0xffff`, the padded last byte included. -/
theorem wordSum_le : ∀ bs : List UInt8, 2 * wordSum bs ≤ 65535 * (bs.length + 1)
  | [] => by decide
  | [hi] => by
      have hhi := hi.toNat_lt
      simp only [wordSum, List.length_singleton]
      omega
  | hi :: lo :: rest => by
      have hhi := hi.toNat_lt
      have hlo := lo.toNat_lt
      have hrest := wordSum_le rest
      simp only [wordSum, List.length_cons]
      omega

theorem wordSum_be16 {v : Nat} (h : v < 2 ^ 16) : wordSum (Mem.be16 v) = v := by
  have hhi : (UInt8.ofNat (v / 256)).toNat = v / 256 % 256 := UInt8.toNat_ofNat'
  have hlo : (UInt8.ofNat v).toNat = v % 256 := UInt8.toNat_ofNat'
  simp only [Mem.be16, wordSum, hhi, hlo]
  omega

/-- The plain sum of a block with a 16-bit field at an even offset. -/
theorem wordSum_field {front : List UInt8} (back : List UInt8) {v : Nat}
    (heven : front.length % 2 = 0) (hv : v < 2 ^ 16) :
    wordSum (front ++ Mem.be16 v ++ back) = wordSum front + v + wordSum back := by
  have hcut : (front ++ Mem.be16 v).length % 2 = 0 := by
    rw [List.length_append]
    exact Nat.add_mod_right front.length 2 ▸ heven
  rw [wordSum_append _ back hcut, wordSum_append front _ heven, wordSum_be16 hv]

/-- The complement completes a sum to all ones. -/
theorem endAround_complement (s : Nat) : endAround (s + (65535 - endAround s)) = 65535 := by
  by_cases hs : s = 0
  · subst hs
    rfl
  · have hround : endAround s = (s - 1) % 65535 + 1 := if_neg hs
    have hsum : ¬ s + (65535 - endAround s) = 0 := by omega
    rw [endAround, if_neg hsum, hround]
    omega

/-- A block summed with its checksum field zero verifies once the complement of that sum is
stored in the field. -/
theorem verifies_filled {front : List UInt8} (back : List UInt8)
    (heven : front.length % 2 = 0) :
    Verifies (front ++ Mem.be16 (65535 - onesSum (front ++ Mem.be16 0 ++ back)) ++ back) := by
  have hzero : wordSum (front ++ Mem.be16 0 ++ back) = wordSum front + wordSum back := by
    rw [wordSum_field back heven (by decide), Nat.add_zero]
  rw [Verifies, onesSum_eq, onesSum_eq, hzero, wordSum_field back heven (by omega)]
  -- the stored word stands between the two parts it was computed from
  rw [Nat.add_right_comm]
  exact endAround_complement _

end Checksum
end Lib
end InfernoFpga
