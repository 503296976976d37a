import InfernoFpga.Firmware.Config
import InfernoFpga.Lib.Crc
import InfernoFpga.Lib.Segment
import InfernoFpga.Netload.Host

/-!
# ImageCrc — what the CRC keeps from running

The loader computes the CRC of an image bit by bit, the host byte by byte off a table; they agree on
every byte string.  An image that differs from the announced one in a burst of up to four bytes is
run neither after a transfer nor from the flash.
-/

namespace InfernoFpga
namespace Netload

open Lib
open Firmware (Chip cfgflashRead cfgflashRead_eq)

/-! ## The two computations -/

/-- The polynomial of CRC-32, reflected. -/
def crcPoly : BitVec 32 := 0xEDB88320#32

theorem crcPoly_msb : crcPoly.msb = true := by decide

/-- The mask `-(crc & 1)` and the test of the low bit take the polynomial off alike. -/
theorem crcBit_toBitVec (c : UInt32) : (crcBit c).toBitVec = Crc.bit crcPoly c.toBitVec := by
  have hlow : (c &&& 1).toBitVec = (BitVec.ofBool (c.toBitVec.getLsbD 0)).setWidth 32 := by
    rw [UInt32.toBitVec_and]
    exact BitVec.and_one_eq_setWidth_ofBool_getLsbD
  rw [crcBit, Crc.bit, UInt32.toBitVec_xor, UInt32.toBitVec_and, UInt32.toBitVec_sub, hlow]
  cases c.toBitVec.getLsbD 0 with
  | false => simp
  | true => simp [crcPoly]

theorem shiftCrc_eq_crcBit (c : UInt32) : shiftCrc c = crcBit c := by
  have hlow : (c &&& 1).toBitVec = (BitVec.ofBool (c.toBitVec.getLsbD 0)).setWidth 32 := by
    rw [UInt32.toBitVec_and]
    exact BitVec.and_one_eq_setWidth_ofBool_getLsbD
  have hone : c &&& 1 = 1 ↔ c.toBitVec.getLsbD 0 = true := by
    rw [← UInt32.toBitVec_inj, hlow]
    cases c.toBitVec.getLsbD 0 <;> decide
  rw [← UInt32.toBitVec_inj, crcBit_toBitVec, shiftCrc, Crc.bit]
  by_cases h : c &&& 1 = 1
  · rw [if_pos h, if_pos (hone.1 h), UInt32.toBitVec_xor, BitVec.xor_comm]
    simp [crcPoly]
  · rw [if_neg h, if_neg (mt hone.2 h)]
    simp

theorem iterate_toBitVec (n : Nat) (c : UInt32) :
    (crcBit^[n] c).toBitVec = (Crc.bit crcPoly)^[n] c.toBitVec :=
  Function.Semiconj.iterate_right crcBit_toBitVec n c

theorem crcByte_toBitVec (c : UInt32) (b : UInt8) :
    (crcByte c b).toBitVec = Crc.absorb crcPoly c.toBitVec b.toBitVec := by
  rw [crcByte, iterate_toBitVec, UInt32.toBitVec_xor]
  rfl

/-- A byte off the table is eight bits of the loop. -/
theorem updateCrc_eq_crcByte (c : UInt32) (b : UInt8) : updateCrc c b = crcByte c b := by
  have hshift : shiftCrc = crcBit := funext shiftCrc_eq_crcBit
  rw [← UInt32.toBitVec_inj, crcByte_toBitVec, Crc.absorb_eq_table, updateCrc, crcTable, hshift,
    UInt32.toBitVec_xor, iterate_toBitVec]
  rfl

/-- The loader and the host compute the same CRC. -/
theorem crc32_eq_binasciiCrc32 (bs : List UInt8) : crc32 bs = binasciiCrc32 bs := by
  have hupdate : updateCrc = crcByte := funext fun c => funext (updateCrc_eq_crcByte c)
  rw [crc32, binasciiCrc32, hupdate]
  generalize bs.foldl crcByte 0xFFFFFFFF = c
  rw [← UInt32.toBitVec_inj, UInt32.toBitVec_not, UInt32.toBitVec_xor]
  exact BitVec.xor_allOnes.symm

theorem foldl_toBitVec (bs : List UInt8) (c : UInt32) :
    (bs.foldl crcByte c).toBitVec = Crc.digest crcPoly c.toBitVec (bs.map UInt8.toBitVec) := by
  induction bs generalizing c with
  | nil => rfl
  | cons b bs ih => rw [List.foldl_cons, ih, crcByte_toBitVec, List.map_cons, Crc.digest_cons]

/-! ## Bursts -/

/-- The second string is the first one with a change inside at most four consecutive bytes. -/
def Corrupted (img img' : List UInt8) : Prop :=
  ∃ xs ys ys' zs, img = xs ++ ys ++ zs ∧ img' = xs ++ ys' ++ zs ∧ ys'.length = ys.length ∧
    ys.length ≤ 4 ∧ ys ≠ ys'

theorem Corrupted.length_eq {img img' : List UInt8} (h : Corrupted img img') :
    img'.length = img.length := by
  obtain ⟨xs, ys, ys', zs, rfl, rfl, hlen, -, -⟩ := h
  simp only [List.length_append, hlen]

theorem Corrupted.crc32_ne {img img' : List UInt8} (h : Corrupted img img') :
    crc32 img ≠ crc32 img' := by
  obtain ⟨xs, ys, ys', zs, rfl, rfl, hlen, hfour, hne⟩ := h
  intro heq
  have hregs := UInt32.not_inj.1 heq
  rw [← UInt32.toBitVec_inj, foldl_toBitVec, foldl_toBitVec] at hregs
  simp only [List.map_append] at hregs
  refine Crc.digest_burst_ne crcPoly_msb _ ?_ ?_ ?_ hregs
  · rw [List.length_map, List.length_map, hlen]
  · rw [List.length_map]
    omega
  · intro hmap
    exact hne (List.map_injective_iff.2 (fun _ _ => UInt8.toBitVec_inj.1) hmap)

/-! ## After a transfer -/

/-- A turn of the loop does not leave it with success while the code RAM holds a corrupted image. -/
theorem returned_of_corrupted {s : Loader} {rx : Option Rx} {img : List UInt8}
    (hrun : s.returned ≠ some true) (hcrc : s.imgCrc = (binasciiCrc32 img).toNat)
    (hram : Corrupted img (Mem.slice s.coderam 0 s.imgLen)) :
    (step s rx).returned ≠ some true := by
  cases htaken : taken s rx with
  | none =>
      obtain ⟨spins, returned, hstep, hret⟩ := step_untaken htaken
      rw [hstep]
      exact fun h => hrun (hret h)
  | some f =>
      have hspin : (spin s).returned = s.returned ∧ storedCrc (spin s) = storedCrc s ∧
          (spin s).imgCrc = s.imgCrc := by
        rw [spin]
        split <;> exact ⟨rfl, rfl, rfl⟩
      have hdiffer : storedCrc (spin s) ≠ (spin s).imgCrc := by
        rw [hspin.2.1, hspin.2.2, hcrc, storedCrc, ← crc32_eq_binasciiCrc32]
        exact fun h => hram.crc32_ne (UInt32.toNat_inj.1 h).symm
      rw [← hspin.1] at hrun
      rw [step, poll_taken htaken]
      generalize spin s = s' at hrun hdiffer
      rw [handle]
      split
      · split
        · exact hrun
        · exact hrun
      split
      · show (storeData s' f).returned ≠ some true
        rw [storeData]
        split
        · exact hrun
        · exact hrun
      split
      · split
        · exact hrun
        · exact hrun
      · exact hrun

/-! ## From the flash -/

abbrev flashImageAddr : Nat := 0x300000

/-- `flashload`: the code RAM after it, and whether an image is to be run. -/
def flashload (c : Chip) (ram : Mem) : Mem × Bool :=
  let hdr : Mem := fun k => (cfgflashRead c flashImageAddr 12).getD k 0
  if Mem.rd32 hdr 0 ≠ imgMagic then (ram, false)
  else
    let len := Mem.rd32 hdr 4
    let crc := Mem.rd32 hdr 8
    if len = 0 ∨ coderamSize < len then (ram, false)
    else
      let ram := Mem.store ram 0 (cfgflashRead c (flashImageAddr + 12) len)
      if (crc32 (Mem.slice ram 0 len)).toNat ≠ crc then (ram, false) else (ram, true)

/-- The header that `mkimage.py` puts in front of an image. -/
def mkimageHeader (img : Image) : List UInt8 :=
  Mem.be32 imgMagic ++ Mem.be32 img.val.length ++ Mem.be32 (binasciiCrc32 img.val).toNat

/-- Behind the header of an image, what is there is loaded, and run iff its CRC is the image's. -/
theorem flashload_eq {c : Chip} {ram : Mem} {img : Image} {body : List UInt8}
    (hlen : body.length = img.val.length)
    (hflash : Mem.slice c.mem flashImageAddr (12 + img.val.length) = mkimageHeader img ++ body) :
    flashload c ram = (Mem.store ram 0 body, decide (crc32 body = crc32 img.val)) := by
  have hsize := img.property.2
  have hpos : img.val.length ≠ 0 := fun h => img.property.1 (List.length_eq_zero_iff.1 h)
  have hcap : coderamSize = 98304 := rfl
  have haddr : flashImageAddr = 3145728 := rfl
  rw [Mem.slice_append] at hflash
  obtain ⟨hhdr, hbody⟩ := List.append_inj hflash (Mem.length_slice _ _ _)
  have hread : cfgflashRead c flashImageAddr 12 = mkimageHeader img := by
    rw [cfgflashRead_eq c (by decide), hhdr]
  have hread' : cfgflashRead c (flashImageAddr + 12) img.val.length = body := by
    rw [cfgflashRead_eq c (by omega), hbody]
  have hfront : At (mkimageHeader img) 0 (mkimageHeader img) := At.of_prefix (List.prefix_refl _)
  obtain ⟨h, hcrc⟩ := At.append_iff.1 hfront
  obtain ⟨hmagic, hlength⟩ := At.append_iff.1 h
  have h0 : Mem.rd32 (fun k => (mkimageHeader img).getD k 0) 0 = imgMagic := hmagic.rd32 (by decide)
  have h4 : Mem.rd32 (fun k => (mkimageHeader img).getD k 0) 4 = img.val.length :=
    hlength.rd32 (by omega)
  have h8 : Mem.rd32 (fun k => (mkimageHeader img).getD k 0) 8 = (binasciiCrc32 img.val).toNat :=
    hcrc.rd32 (UInt32.toNat_lt _)
  have hstored : Mem.slice (Mem.store ram 0 body) 0 img.val.length = body := by
    rw [← hlen, Mem.slice_store_same]
  rw [flashload, hread, h0, h4, h8, if_neg (not_not.2 rfl), if_neg (by omega)]
  simp only [hread', hstored, ← crc32_eq_binasciiCrc32]
  by_cases heq : crc32 body = crc32 img.val
  · rw [heq, if_neg (not_not.2 rfl), decide_eq_true rfl]
  · rw [if_pos fun h => heq (UInt32.toNat_inj.1 h), decide_eq_false heq]

/-- An image that lies in the flash as `mkimage.py` wrote it is run. -/
theorem flashload_image {c : Chip} {ram : Mem} {img : Image}
    (hflash : Mem.slice c.mem flashImageAddr (12 + img.val.length) =
      mkimageHeader img ++ img.val) :
    flashload c ram = (Mem.store ram 0 img.val, true) := by
  rw [flashload_eq rfl hflash, decide_eq_true rfl]

/-- The loader's CRC is the host's; a change inside four consecutive bytes changes it; and an image
so changed is run neither after a transfer that announced the host's CRC, whatever frame is handled,
nor from a flash with the host's header. -/
theorem crc_protects :
    (∀ bs, crc32 bs = binasciiCrc32 bs) ∧
      (∀ img img', Corrupted img img' → crc32 img ≠ crc32 img') ∧
      (∀ (s : Loader) (rx : Option Rx) (img : List UInt8), s.returned ≠ some true →
        s.imgCrc = (binasciiCrc32 img).toNat →
        Corrupted img (Mem.slice s.coderam 0 s.imgLen) → (step s rx).returned ≠ some true) ∧
      ∀ (c : Chip) (ram : Mem) (img : Image) (img' : List UInt8), Corrupted img.val img' →
        Mem.slice c.mem flashImageAddr (12 + img.val.length) = mkimageHeader img ++ img' →
        (flashload c ram).2 = false := by
  refine ⟨crc32_eq_binasciiCrc32, fun _ _ h => h.crc32_ne, fun _ _ _ => returned_of_corrupted, ?_⟩
  intro c ram img img' hcorrupt hflash
  rw [flashload_eq hcorrupt.length_eq hflash]
  exact decide_eq_false hcorrupt.crc32_ne.symm

end Netload
end InfernoFpga
