import Mathlib.Logic.Function.Iterate
import Mathlib.Data.List.Basic
import Mathlib.Algebra.Group.Nat.Defs

/-!
# Crc — reflected cyclic redundancy checks

A reflected CRC of width `w` shifts its register right and takes off the polynomial when a one falls
out.  The register step is linear, and it is injective when the polynomial has its top bit, so a
burst of errors no wider than the register always shows.  Everything holds for every width,
polynomial and symbol size.
-/

namespace InfernoFpga
namespace Lib
namespace Crc

variable {w k : Nat} (poly : BitVec w)

/-- One bit of the division. -/
def bit (c : BitVec w) : BitVec w := if c.getLsbD 0 then (c >>> 1) ^^^ poly else c >>> 1

/-- A symbol is added at the low end, and shifted through. -/
def absorb (c : BitVec w) (b : BitVec k) : BitVec w := (bit poly)^[k] (c ^^^ b.setWidth w)

/-- The register after a message. -/
def digest (c : BitVec w) (bs : List (BitVec k)) : BitVec w := bs.foldl (absorb poly) c

/-! ## The register -/

section Register

variable {poly}

/-- Two ones that fall out together cancel. -/
theorem bit_xor (a b : BitVec w) : bit poly (a ^^^ b) = bit poly a ^^^ bit poly b := by
  have hcancel : ∀ x y : BitVec w, x ^^^ poly ^^^ (y ^^^ poly) = x ^^^ y := by
    intro x y
    rw [BitVec.xor_comm y poly, BitVec.xor_assoc, ← BitVec.xor_assoc poly, BitVec.xor_self,
      BitVec.zero_xor]
  simp only [bit, BitVec.getLsbD_xor, BitVec.ushiftRight_xor_distrib]
  cases a.getLsbD 0 with
  | false =>
      cases b.getLsbD 0 with
      | false => rfl
      | true => exact BitVec.xor_assoc _ _ _
  | true =>
      cases b.getLsbD 0 with
      | false =>
          show a >>> 1 ^^^ b >>> 1 ^^^ poly = a >>> 1 ^^^ poly ^^^ b >>> 1
          rw [BitVec.xor_assoc, BitVec.xor_assoc, BitVec.xor_comm poly]
      | true => exact (hcancel _ _).symm

theorem iterate_xor (n : Nat) (a b : BitVec w) :
    (bit poly)^[n] (a ^^^ b) = (bit poly)^[n] a ^^^ (bit poly)^[n] b := by
  induction n with
  | zero => rfl
  | succ n ih =>
      rw [Function.iterate_succ_apply', Function.iterate_succ_apply', Function.iterate_succ_apply',
        ih, bit_xor]

/-- With the top bit in the polynomial, the register forgets nothing. -/
theorem bit_injective (hpoly : poly.msb = true) : Function.Injective (bit poly) := by
  have hker : ∀ c : BitVec w, bit poly c = 0#w → c = 0#w := by
    intro c hc
    rw [bit] at hc
    split at hc
    · have heq := BitVec.xor_eq_zero_iff.1 hc
      have hmsb : (c >>> 1).msb = true := heq ▸ hpoly
      rw [BitVec.msb_ushiftRight] at hmsb
      cases hmsb
    · rename_i hlow
      refine BitVec.eq_of_getLsbD_eq fun i _ => ?_
      rw [BitVec.getLsbD_zero]
      cases i with
      | zero => exact Bool.eq_false_iff.2 hlow
      | succ i =>
          have hbit := congrArg (fun x : BitVec w => x.getLsbD i) hc
          simpa [BitVec.getLsbD_ushiftRight, Nat.add_comm] using hbit
  intro a b hab
  refine BitVec.xor_eq_zero_iff.1 (hker _ ?_)
  rw [bit_xor]
  exact BitVec.xor_eq_zero_iff.2 hab

variable (poly) in
/-- What lies above the shifts only moves down. -/
theorem iterate_shiftLeft {n : Nat} {d : BitVec w} (hd : d.toNat * 2 ^ n < 2 ^ w) :
    (bit poly)^[n] (d <<< n) = d := by
  induction n with
  | zero => exact BitVec.shiftLeft_zero d
  | succ n ih =>
      have hpow : d.toNat * 2 ^ (n + 1) = d.toNat * 2 ^ n * 2 := by rw [Nat.pow_succ, Nat.mul_assoc]
      have hfits : d.toNat * 2 ^ n < 2 ^ w := by omega
      have hshift : (d <<< n).toNat = d.toNat * 2 ^ n := by
        rw [BitVec.toNat_shiftLeft, Nat.shiftLeft_eq, Nat.mod_eq_of_lt hfits]
      have hback : bit poly (d <<< (n + 1)) = d <<< n := by
        have hlow : (d <<< (n + 1)).getLsbD 0 = false := by simp
        rw [bit, hlow, if_neg Bool.false_ne_true]
        refine BitVec.eq_of_toNat_eq ?_
        rw [BitVec.toNat_ushiftRight, BitVec.toNat_shiftLeft, Nat.shiftLeft_eq,
          Nat.mod_eq_of_lt hd, hpow, Nat.shiftRight_eq_div_pow, hshift]
        omega
      rw [Function.iterate_succ_apply, hback, ih hfits]

end Register

/-! ## Messages -/

section Message

variable {poly}

theorem digest_cons (c : BitVec w) (b : BitVec k) (bs : List (BitVec k)) :
    digest poly c (b :: bs) = digest poly (absorb poly c b) bs := rfl

theorem digest_append (c : BitVec w) (xs ys : List (BitVec k)) :
    digest poly c (xs ++ ys) = digest poly (digest poly c xs) ys := List.foldl_append

/-- The same message keeps different registers apart. -/
theorem digest_injective (hpoly : poly.msb = true) (bs : List (BitVec k)) :
    Function.Injective fun c : BitVec w => digest poly c bs := by
  induction bs with
  | nil => exact fun a b h => h
  | cons b bs ih =>
      intro c c' h
      have hstep := (bit_injective hpoly).iterate k (ih h)
      exact (BitVec.xor_left_inj _).1 hstep

/-- Symbols side by side, the first one lowest. -/
def pack : List (BitVec k) → BitVec w
  | [] => 0#w
  | b :: bs => b.setWidth w ^^^ pack bs <<< k

theorem toNat_pack_lt : ∀ (bs : List (BitVec k)), bs.length * k ≤ w →
    (pack bs : BitVec w).toNat < 2 ^ (bs.length * k)
  | [], _ => by simp [pack]
  | b :: bs, hw => by
      rw [List.length_cons, Nat.succ_mul] at hw ⊢
      have hrest : (pack bs : BitVec w).toNat < 2 ^ (bs.length * k) :=
        toNat_pack_lt bs (by omega)
      rw [pack, BitVec.toNat_xor]
      refine Nat.xor_lt_two_pow ?_ ?_
      · calc (b.setWidth w).toNat ≤ b.toNat := by
              rw [BitVec.toNat_setWidth]
              exact Nat.mod_le _ _
          _ < 2 ^ k := b.isLt
          _ ≤ 2 ^ (bs.length * k + k) := Nat.pow_le_pow_right (by decide) (by omega)
      · calc ((pack bs : BitVec w) <<< k).toNat ≤ (pack bs : BitVec w).toNat * 2 ^ k := by
              rw [BitVec.toNat_shiftLeft, Nat.shiftLeft_eq]
              exact Nat.mod_le _ _
          _ < 2 ^ (bs.length * k) * 2 ^ k := Nat.mul_lt_mul_of_pos_right hrest (Nat.two_pow_pos k)
          _ = 2 ^ (bs.length * k + k) := (Nat.pow_add ..).symm

/-- The shifted rest does not overflow. -/
theorem toNat_pack_mul {bs : List (BitVec k)} (hw : bs.length * k + k ≤ w) :
    (pack bs : BitVec w).toNat * 2 ^ k < 2 ^ w := by
  have hlt := toNat_pack_lt (w := w) bs (by omega)
  calc (pack bs : BitVec w).toNat * 2 ^ k < 2 ^ (bs.length * k) * 2 ^ k :=
        Nat.mul_lt_mul_of_pos_right hlt (Nat.two_pow_pos k)
    _ = 2 ^ (bs.length * k + k) := (Nat.pow_add ..).symm
    _ ≤ 2 ^ w := Nat.pow_le_pow_right (by decide) hw

/-- Only zeros pack to zero. -/
theorem eq_zero_of_pack : ∀ (bs : List (BitVec k)), bs.length * k ≤ w →
    (pack bs : BitVec w) = 0#w → ∀ b ∈ bs, b = 0#k
  | [], _, _, _, hb => absurd hb List.not_mem_nil
  | b :: bs, hw, hpack, x, hx => by
      rw [List.length_cons, Nat.succ_mul] at hw
      have heq := BitVec.xor_eq_zero_iff.1 hpack
      have hk : k ≤ w := by omega
      have hpow : 2 ^ k ≤ 2 ^ w := Nat.pow_le_pow_right (by decide) hk
      have hnat := congrArg BitVec.toNat heq
      rw [BitVec.toNat_setWidth, Nat.mod_eq_of_lt (Nat.lt_of_lt_of_le b.isLt hpow),
        BitVec.toNat_shiftLeft, Nat.shiftLeft_eq, Nat.mod_eq_of_lt (toNat_pack_mul hw)] at hnat
      -- the low symbol is below `2 ^ k`, the rest is a multiple of it
      have hrest : (pack bs : BitVec w).toNat = 0 := by
        by_contra hne
        have hle := Nat.le_mul_of_pos_left (2 ^ k) (Nat.pos_of_ne_zero hne)
        have hlt := b.isLt
        omega
      rw [hrest, Nat.zero_mul] at hnat
      rcases List.mem_cons.1 hx with rfl | hx
      · exact BitVec.eq_of_toNat_eq hnat
      · exact eq_zero_of_pack bs (by omega) (BitVec.eq_of_toNat_eq hrest) x hx

/-- Two short messages that end alike began apart by just what they differ in. -/
theorem xor_eq_pack (hpoly : poly.msb = true) : ∀ (ys ys' : List (BitVec k)) (c c' : BitVec w),
    ys'.length = ys.length → ys.length * k ≤ w → digest poly c ys = digest poly c' ys' →
      c ^^^ c' = pack (List.zipWith (· ^^^ ·) ys ys')
  | [], [], c, c', _, _, h => BitVec.xor_eq_zero_iff.2 h
  | y :: ys, y' :: ys', c, c', hlen, hw, h => by
      rw [List.length_cons, Nat.succ_mul] at hw
      have hlen' : ys'.length = ys.length := Nat.succ_inj.1 hlen
      have hrec := xor_eq_pack hpoly ys ys' (absorb poly c y) (absorb poly c' y') hlen' (by omega) h
      have hzip : (List.zipWith (· ^^^ ·) ys ys').length * k + k ≤ w := by
        rw [List.length_zipWith, hlen', Nat.min_self]
        exact hw
      rw [absorb, absorb, ← iterate_xor, ← iterate_shiftLeft poly (toNat_pack_mul hzip)]
        at hrec
      have hbefore := (bit_injective hpoly).iterate k hrec
      have hswap : c ^^^ y.setWidth w ^^^ (c' ^^^ y'.setWidth w) =
          c ^^^ c' ^^^ (y ^^^ y').setWidth w := by
        rw [BitVec.setWidth_xor]
        ac_rfl
      rw [hswap] at hbefore
      rw [List.zipWith_cons_cons, pack, ← hbefore, BitVec.xor_comm (c ^^^ c'), ← BitVec.xor_assoc,
        BitVec.xor_self, BitVec.zero_xor]

/-- A burst no wider than the register changes the check, whatever surrounds it. -/
theorem digest_burst_ne (hpoly : poly.msb = true) (c : BitVec w) {xs ys ys' zs : List (BitVec k)}
    (hlen : ys'.length = ys.length) (hw : ys.length * k ≤ w) (hne : ys ≠ ys') :
    digest poly c (xs ++ ys ++ zs) ≠ digest poly c (xs ++ ys' ++ zs) := by
  intro h
  rw [digest_append, digest_append, digest_append _ _ zs, digest_append _ _ ys'] at h
  have hburst := digest_injective hpoly zs h
  have hpack := xor_eq_pack hpoly ys ys' _ _ hlen hw hburst
  rw [BitVec.xor_self] at hpack
  have hsize : (List.zipWith (· ^^^ ·) ys ys').length = ys.length := by
    rw [List.length_zipWith, hlen, Nat.min_self]
  have hzero := eq_zero_of_pack _ (by rw [hsize]; exact hw) hpack.symm
  refine hne (List.ext_getElem hlen.symm fun i h₁ h₂ => ?_)
  have hmem : ys[i] ^^^ ys'[i] ∈ List.zipWith (· ^^^ ·) ys ys' := by
    rw [List.mem_iff_getElem]
    exact ⟨i, by rw [hsize]; exact h₁, by rw [List.getElem_zipWith]⟩
  exact BitVec.xor_eq_zero_iff.1 (hzero _ hmem)

end Message

/-! ## Tables -/

/-- Symbol by symbol off a table: the entry of the low end, and the rest moved down. -/
theorem absorb_eq_table (c : BitVec w) (b : BitVec k) :
    absorb poly c b =
      (bit poly)^[k] (((c ^^^ b.setWidth w).setWidth k).setWidth w) ^^^ c >>> k := by
  have hlow : b.setWidth w >>> k = 0#w := by
    refine BitVec.eq_of_toNat_eq ?_
    rw [BitVec.toNat_ushiftRight, BitVec.toNat_setWidth, Nat.shiftRight_eq_div_pow]
    exact Nat.div_eq_of_lt (Nat.lt_of_le_of_lt (Nat.mod_le _ _) b.isLt)
  have hhigh : (c ^^^ b.setWidth w) >>> k = c >>> k := by
    rw [BitVec.ushiftRight_xor_distrib, hlow, BitVec.xor_zero]
  have hsplit : ∀ x : BitVec w, x = (x.setWidth k).setWidth w ^^^ (x >>> k) <<< k := by
    intro x
    refine BitVec.eq_of_getLsbD_eq fun i hi => ?_
    rw [BitVec.getLsbD_xor, BitVec.getLsbD_setWidth, BitVec.getLsbD_setWidth,
      BitVec.getLsbD_shiftLeft, BitVec.getLsbD_ushiftRight]
    by_cases hik : i < k
    · simp [hi, hik]
    · simp [hi, hik, Nat.add_sub_cancel' (Nat.not_lt.1 hik)]
  have hfits : (c >>> k).toNat * 2 ^ k < 2 ^ w := by
    rw [BitVec.toNat_ushiftRight, Nat.shiftRight_eq_div_pow]
    exact Nat.lt_of_le_of_lt (Nat.div_mul_le_self _ _) c.isLt
  rw [absorb]
  conv_lhs => rw [hsplit (c ^^^ b.setWidth w)]
  rw [iterate_xor, hhigh, iterate_shiftLeft _ hfits]

end Crc
end Lib
end InfernoFpga
