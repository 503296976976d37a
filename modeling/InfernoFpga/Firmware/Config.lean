import InfernoFpga.Lib.Layout
import InfernoFpga.Lib.Mem
import InfernoFpga.Lib.Run

/-!
# Config — the configuration in the flash

`g_cfg` is kept in one sector of the configuration flash.  The flash is reached a byte at a time
through single SPI transfers; the chip below answers those of them that the driver sends, with
the physics of a flash: erasing a sector sets every bit of it, programming only clears bits.
-/

namespace InfernoFpga
namespace Firmware

open Lib

/-! ## The configuration -/

abbrev cfgMagic : UInt32 := 0xCFA50701
abbrev cfgVersion : UInt16 := 4
abbrev sizeofCfg : Nat := 120
abbrev cfgFlashAddr : Nat := 0xFFF000

/-- `cfg_t`, with its padding. -/
structure Cfg where
  magic : UInt32
  version : UInt16
  size : UInt16
  cs : UInt8
  crfValid : UInt8
  pad : Vector UInt8 2
  crfStreamId : Vector UInt8 8
  crfDmac : Vector UInt8 6
  pad2 : Vector UInt8 2
  crfTalkerEid : Vector UInt8 8
  oscIp : Vector UInt8 4
  oscPrefix : UInt8
  pad3 : Vector UInt8 3
  ptpAddendValid : UInt8
  pad4 : Vector UInt8 3
  ptpAddendFull : UInt64
  mclkPpb : Int32
  mclkPpbValid : UInt8
  reserved : Vector UInt8 55
  crc : UInt32
  deriving DecidableEq

namespace Cfg

/-- The fields before the checksum, in their order. -/
abbrev Front : Type :=
  UInt32 × UInt16 × UInt16 × UInt8 × UInt8 × Vector UInt8 2 × Vector UInt8 8 × Vector UInt8 6 ×
    Vector UInt8 2 × Vector UInt8 8 × Vector UInt8 4 × UInt8 × Vector UInt8 3 × UInt8 ×
    Vector UInt8 3 × UInt64 × UInt32 × UInt8 × Vector UInt8 55

def front (c : Cfg) : Front :=
  ⟨c.magic, c.version, c.size, c.cs, c.crfValid, c.pad, c.crfStreamId, c.crfDmac, c.pad2,
    c.crfTalkerEid, c.oscIp, c.oscPrefix, c.pad3, c.ptpAddendValid, c.pad4, c.ptpAddendFull,
    c.mclkPpb.toUInt32, c.mclkPpbValid, c.reserved⟩

def ofFields : Front × UInt32 ≃ Cfg where
  toFun := fun ⟨⟨magic, version, size, cs, crfValid, pad, crfStreamId, crfDmac, pad2, crfTalkerEid,
      oscIp, oscPrefix, pad3, ptpAddendValid, pad4, ptpAddendFull, mclkPpb, mclkPpbValid,
      reserved⟩, crc⟩ =>
    ⟨magic, version, size, cs, crfValid, pad, crfStreamId, crfDmac, pad2, crfTalkerEid, oscIp,
      oscPrefix, pad3, ptpAddendValid, pad4, ptpAddendFull, ⟨mclkPpb⟩, mclkPpbValid, reserved, crc⟩
  invFun c := (c.front, c.crc)
  left_inv _ := rfl
  right_inv _ := rfl

open Layout in
def frontLayout : Layout Front :=
  seq uint32 <| seq uint16 <| seq uint16 <| seq byte <| seq byte <| seq (bytes 2) <|
    seq (bytes 8) <| seq (bytes 6) <| seq (bytes 2) <| seq (bytes 8) <| seq (bytes 4) <|
    seq byte <| seq (bytes 3) <| seq byte <| seq (bytes 3) <| seq uint64 <| seq uint32 <|
    seq byte (bytes 55)

/-- How the compiler lays `cfg_t` out: every field falls on its alignment, so there is no hidden
padding, and the checksum is the last word. -/
def layout : Layout Cfg := (frontLayout.seq Layout.uint32).iso ofFields

theorem width_layout : layout.width = sizeofCfg := rfl

end Cfg

/-- `cfg_crc`. -/
@[irreducible] def cfgCrc (c : Cfg) : UInt32 :=
  ((Cfg.layout.put c).take (sizeofCfg - 4)).foldl (fun s b => s * 31 + b.toUInt32) 0x1357BD13

/-- `cfg_defaults`. -/
def cfgDefaults : Cfg :=
  { magic := cfgMagic, version := cfgVersion, size := UInt16.ofNat sizeofCfg, cs := 0, crfValid := 0
    pad := Vector.replicate 2 0, crfStreamId := Vector.replicate 8 0
    crfDmac := Vector.replicate 6 0, pad2 := Vector.replicate 2 0
    crfTalkerEid := Vector.replicate 8 0, oscIp := #v[169, 254, 9, 200], oscPrefix := 16
    pad3 := Vector.replicate 3 0, ptpAddendValid := 0, pad4 := Vector.replicate 3 0
    ptpAddendFull := 0, mclkPpb := 0, mclkPpbValid := 0, reserved := Vector.replicate 55 0
    crc := 0 }

/-! ## The flash chip -/

/-- The flash: its bytes, and the latch that a write needs set. -/
structure Chip where
  mem : Mem
  wel : Bool

/-- One SPI transfer of `bits` bits, the command in the top byte of `mosi`, and the low byte of
what comes back. -/
def spiXfer (c : Chip) (mosi bits : Nat) : Chip × UInt8 :=
  let addr := mosi / 2 ^ 8 % 2 ^ 24
  match mosi / 2 ^ 32 % 2 ^ 8, bits with
  | 0x03, 40 => (c, c.mem addr)
  | 0x05, 16 => (c, if c.wel then 2 else 0)
  | 0x06, 8 => ({ c with wel := true }, 0)
  | 0x20, 32 =>
      if c.wel then
        (⟨fun x => if x / 4096 = addr / 4096 then 0xFF else c.mem x, false⟩, 0)
      else (c, 0)
  | 0x02, 40 =>
      if c.wel then
        (⟨fun x => if x = addr then c.mem x &&& UInt8.ofNat mosi else c.mem x, false⟩, 0)
      else (c, 0)
  | _, _ => (c, 0)

/-! ## The driver -/

/-- `cfgflash_status`. -/
def cfgflashStatus (c : Chip) : UInt8 := (spiXfer c (0x05 * 2 ^ 32) 16).2

/-- `cfg_wait_wip`, with what is left of its bound. -/
def cfgWaitWip (c : Chip) : Nat → Chip
  | 0 => c
  | n + 1 => if cfgflashStatus c &&& 1 = 0 then c else cfgWaitWip c n

abbrev waitWipTries : Nat := 4000000

/-- `cfg_write_enable`. -/
def cfgWriteEnable (c : Chip) : Chip := (spiXfer c (0x06 * 2 ^ 32) 8).1

/-- `cfgflash_erase_4k`. -/
def cfgflashErase4k (c : Chip) (addr : Nat) : Chip :=
  cfgWaitWip (spiXfer (cfgWriteEnable c) (0x20 * 2 ^ 32 + addr % 2 ^ 24 * 2 ^ 8) 32).1 waitWipTries

/-- `cfgflash_program`: one command for every byte. -/
def cfgflashProgram (c : Chip) (addr : Nat) : List UInt8 → Chip
  | [] => c
  | b :: bs =>
      let mosi := 0x02 * 2 ^ 32 + addr % 2 ^ 24 * 2 ^ 8 + b.toNat
      cfgflashProgram (cfgWaitWip (spiXfer (cfgWriteEnable c) mosi 40).1 waitWipTries) (addr + 1) bs

/-- `cfgflash_read`. -/
def cfgflashRead (c : Chip) (addr n : Nat) : List UInt8 :=
  (List.range n).map fun i => (spiXfer c (0x03 * 2 ^ 32 + (addr + i) % 2 ^ 24 * 2 ^ 8) 40).2

/-! ## Loading and saving -/

/-- The live configuration and the flash behind it. -/
structure Nv where
  gCfg : Cfg
  chip : Chip

/-- What `cfg_load` asks of a blob. -/
def cfgAccepts (t : Cfg) : Bool :=
  t.magic == cfgMagic && decide (1 ≤ t.version) && decide (t.version ≤ cfgVersion) &&
    t.size == UInt16.ofNat sizeofCfg && t.crc == cfgCrc t

/-- The address that stands in for one whose prefix is not set. -/
def withOscIp (c : Cfg) : Cfg :=
  if c.oscPrefix ≠ 16 ∧ c.oscPrefix ≠ 24 then
    { c with oscIp := #v[169, 254, 9, 200], oscPrefix := 16 }
  else c

/-- `cfg_load`. -/
def cfgLoad (n : Nv) : Nv × Bool :=
  let t := Cfg.layout.get (cfgflashRead n.chip cfgFlashAddr sizeofCfg)
  if cfgAccepts t then ({ n with gCfg := withOscIp t }, true)
  else ({ n with gCfg := cfgDefaults }, false)

/-- The header and the checksum that `cfg_save` fills in. -/
def cfgSealed (c : Cfg) : Cfg :=
  let c := { c with magic := cfgMagic, version := cfgVersion, size := UInt16.ofNat sizeofCfg }
  { c with crc := cfgCrc c }

/-- `cfg_save`. -/
def cfgSave (n : Nv) : Nv :=
  let c := cfgSealed n.gCfg
  ⟨c, cfgflashProgram (cfgflashErase4k n.chip cfgFlashAddr) cfgFlashAddr (Cfg.layout.put c)⟩

/-! ## The setters -/

/-- What the firmware changes in `g_cfg` while it runs; each change is saved at once. -/
inductive CfgSetter
  | clearCrf
  | mclkPpb (ppb : Int32)
  | ptpAddend (v : UInt64)

def CfgSetter.apply (c : Cfg) : CfgSetter → Cfg
  | .clearCrf =>
      { c with
        crfValid := 0, crfStreamId := Vector.replicate 8 0, crfDmac := Vector.replicate 6 0
        crfTalkerEid := Vector.replicate 8 0 }
  | .mclkPpb ppb => { c with mclkPpbValid := 1, mclkPpb := ppb }
  | .ptpAddend v => { c with ptpAddendValid := 1, ptpAddendFull := v }

def cfgSet (n : Nv) (x : CfgSetter) : Nv := cfgSave { n with gCfg := x.apply n.gCfg }

/-- The prefix is one of the two there are; nothing the firmware sets changes that. -/
def Cfg.Allowed (c : Cfg) : Prop := c.oscPrefix = 16 ∨ c.oscPrefix = 24

instance (c : Cfg) : Decidable c.Allowed := inferInstanceAs (Decidable (_ ∨ _))

theorem allowed_cfgLoad (n : Nv) : (cfgLoad n).1.gCfg.Allowed := by
  simp only [cfgLoad]
  split
  · simp only [withOscIp]
    split
    · exact Or.inl rfl
    · simp only [Cfg.Allowed]
      tauto
  · exact Or.inl rfl

theorem allowed_cfgSet (n : Nv) (x : CfgSetter) (h : n.gCfg.Allowed) : (cfgSet n x).gCfg.Allowed := by
  cases x <;> exact h

/-- Whatever the flash held at boot, the configuration is one the setters allow at all times. -/
theorem allowed_run (n : Nv) (xs : List CfgSetter) :
    (run cfgSet (cfgLoad n).1 xs).gCfg.Allowed :=
  run_invariant (P := fun n => n.gCfg.Allowed) cfgSet allowed_cfgSet xs (allowed_cfgLoad n)

/-! ## What the driver does to the flash -/

@[simp] theorem cfgWaitWip_eq (c : Chip) : ∀ n, cfgWaitWip c n = c
  | 0 => rfl
  | n + 1 => by
      have hstatus : cfgflashStatus c = if c.wel then 2 else 0 := rfl
      have hready : cfgflashStatus c &&& 1 = 0 := by
        rw [hstatus]
        cases c.wel <;> rfl
      rw [cfgWaitWip, if_pos hready]

theorem cfgWriteEnable_eq (c : Chip) : cfgWriteEnable c = { c with wel := true } := rfl

theorem spiXfer_read (c : Chip) {addr : Nat} (h : addr < 2 ^ 24) :
    (spiXfer c (0x03 * 2 ^ 32 + addr % 2 ^ 24 * 2 ^ 8) 40).2 = c.mem addr := by
  have hop : (0x03 * 2 ^ 32 + addr % 2 ^ 24 * 2 ^ 8) / 2 ^ 32 % 2 ^ 8 = 0x03 := by omega
  have haddr : (0x03 * 2 ^ 32 + addr % 2 ^ 24 * 2 ^ 8) / 2 ^ 8 % 2 ^ 24 = addr := by omega
  simp only [spiXfer, hop, haddr]

theorem spiXfer_erase {c : Chip} {addr : Nat} (h : addr < 2 ^ 24) :
    (spiXfer (cfgWriteEnable c) (0x20 * 2 ^ 32 + addr % 2 ^ 24 * 2 ^ 8) 32).1 =
      ⟨fun x => if x / 4096 = addr / 4096 then 0xFF else c.mem x, false⟩ := by
  have hop : (0x20 * 2 ^ 32 + addr % 2 ^ 24 * 2 ^ 8) / 2 ^ 32 % 2 ^ 8 = 0x20 := by omega
  have haddr : (0x20 * 2 ^ 32 + addr % 2 ^ 24 * 2 ^ 8) / 2 ^ 8 % 2 ^ 24 = addr := by omega
  simp only [spiXfer, hop, haddr, cfgWriteEnable_eq, if_true]

theorem spiXfer_program {c : Chip} {addr : Nat} (h : addr < 2 ^ 24) (b : UInt8) :
    (spiXfer (cfgWriteEnable c) (0x02 * 2 ^ 32 + addr % 2 ^ 24 * 2 ^ 8 + b.toNat) 40).1 =
      ⟨fun x => if x = addr then c.mem x &&& b else c.mem x, false⟩ := by
  have hb := b.toNat_lt
  have hop : (0x02 * 2 ^ 32 + addr % 2 ^ 24 * 2 ^ 8 + b.toNat) / 2 ^ 32 % 2 ^ 8 = 0x02 := by omega
  have haddr : (0x02 * 2 ^ 32 + addr % 2 ^ 24 * 2 ^ 8 + b.toNat) / 2 ^ 8 % 2 ^ 24 = addr := by
    omega
  have hdata : UInt8.ofNat (0x02 * 2 ^ 32 + addr % 2 ^ 24 * 2 ^ 8 + b.toNat) = b := by
    apply UInt8.toNat_inj.1
    simp only [UInt8.toNat_ofNat']
    omega
  simp only [spiXfer, hop, haddr, hdata, cfgWriteEnable_eq, if_true]

theorem cfgflashRead_eq (c : Chip) {addr n : Nat} (h : addr + n ≤ 2 ^ 24) :
    cfgflashRead c addr n = Mem.slice c.mem addr n := by
  apply List.map_congr_left
  intro i hi
  have hin : addr + i < 2 ^ 24 := by
    have := List.mem_range.1 hi
    omega
  exact spiXfer_read c hin

theorem mem_cfgflashErase4k (c : Chip) {addr : Nat} (h : addr < 2 ^ 24) (x : Nat) :
    (cfgflashErase4k c addr).mem x = if x / 4096 = addr / 4096 then 0xFF else c.mem x := by
  rw [cfgflashErase4k, cfgWaitWip_eq, spiXfer_erase h]

/-- Programming clears, in every byte it is given, the bits that are clear there. -/
theorem mem_cfgflashProgram (bs : List UInt8) : ∀ (c : Chip) {addr : Nat}, addr + bs.length ≤ 2 ^ 24 →
    ∀ x, (cfgflashProgram c addr bs).mem x =
      if addr ≤ x ∧ x < addr + bs.length then c.mem x &&& bs.getD (x - addr) 0 else c.mem x := by
  induction bs with
  | nil =>
      intro c addr _ x
      have hout : ¬ (addr ≤ x ∧ x < addr + 0) := by omega
      simp only [cfgflashProgram, List.length_nil, hout, if_false]
  | cons b bs ih =>
      intro c addr h x
      rw [List.length_cons] at h
      rw [cfgflashProgram, cfgWaitWip_eq, spiXfer_program (by omega), ih _ (by omega)]
      simp only [List.length_cons]
      by_cases hhere : x = addr
      · subst hhere
        have hlater : ¬ (x + 1 ≤ x ∧ x < x + 1 + bs.length) := by omega
        have hin : x ≤ x ∧ x < x + (bs.length + 1) := by omega
        simp only [hlater, hin, and_self, if_true, if_false, Nat.sub_self, List.getD_cons_zero]
      · by_cases hlater : addr + 1 ≤ x ∧ x < addr + 1 + bs.length
        · have hin : addr ≤ x ∧ x < addr + (bs.length + 1) := by omega
          have hnext : x - addr = (x - (addr + 1)) + 1 := by omega
          simp only [hlater, hin, hhere, and_self, if_true, if_false, hnext, List.getD_cons_succ]
        · have hout : ¬ (addr ≤ x ∧ x < addr + (bs.length + 1)) := by omega
          simp only [hlater, hout, hhere, if_false]

@[simp] theorem gCfg_cfgSave (n : Nv) : (cfgSave n).gCfg = cfgSealed n.gCfg := by
  rw [cfgSave]

/-- After a save the blob stands in the flash, whatever was there before. -/
theorem read_cfgSave (n : Nv) :
    cfgflashRead (cfgSave n).chip cfgFlashAddr sizeofCfg = Cfg.layout.put (cfgSealed n.gCfg) := by
  have hlen : (Cfg.layout.put (cfgSealed n.gCfg)).length = sizeofCfg := Cfg.layout.length_put _
  have hlast : cfgFlashAddr + sizeofCfg ≤ 2 ^ 24 := by decide
  rw [cfgflashRead_eq _ hlast]
  apply List.ext_getElem
  · rw [Mem.length_slice, hlen]
  intro i hi hi'
  rw [Mem.length_slice] at hi
  have hin : cfgFlashAddr ≤ cfgFlashAddr + i ∧ cfgFlashAddr + i < cfgFlashAddr + sizeofCfg := by
    omega
  have hsector : (cfgFlashAddr + i) / 4096 = cfgFlashAddr / 4096 := by
    have hsize : sizeofCfg = 120 := rfl
    have haddr : cfgFlashAddr = 0xFFF000 := rfl
    omega
  rw [Mem.getElem_slice, cfgSave, mem_cfgflashProgram _ _ (by rw [hlen]; exact hlast), hlen,
    if_pos hin, mem_cfgflashErase4k _ (by decide), if_pos hsector, Nat.add_sub_cancel_left,
    List.getD_eq_getElem _ _ hi']
  exact UInt8.neg_one_and

/-! ## The checksum -/

/-- The bytes the checksum is taken over. -/
def Cfg.body (c : Cfg) : List UInt8 := Cfg.frontLayout.put c.front

theorem length_body (c : Cfg) : c.body.length = sizeofCfg - 4 := Cfg.frontLayout.length_put _

theorem put_layout (c : Cfg) : Cfg.layout.put c = c.body ++ Layout.uint32.put c.crc := rfl

/-- The sum of `cfg_crc` over some bytes. -/
def rollingSum (bs : List UInt8) : UInt32 :=
  bs.foldl (fun s b => s * 31 + b.toUInt32) 0x1357BD13

theorem cfgCrc_eq (c : Cfg) : cfgCrc c = rollingSum c.body := by
  rw [cfgCrc, put_layout, List.take_left' (length_body c), rollingSum]

/-- The checksum is not taken over itself. -/
theorem cfgCrc_crc (c : Cfg) (x : UInt32) : cfgCrc { c with crc := x } = cfgCrc c := by
  have hbody : ({ c with crc := x } : Cfg).body = c.body := rfl
  rw [cfgCrc_eq, cfgCrc_eq, hbody]

theorem crc_cfgSealed (c : Cfg) : (cfgSealed c).crc = cfgCrc (cfgSealed c) := by
  rw [cfgSealed, cfgCrc_crc]

theorem accepts_cfgSealed (c : Cfg) : cfgAccepts (cfgSealed c) := by
  have hmagic : (cfgSealed c).magic = cfgMagic := rfl
  have hversion : (cfgSealed c).version = cfgVersion := rfl
  have hsize : (cfgSealed c).size = UInt16.ofNat sizeofCfg := rfl
  rw [cfgAccepts, hmagic, hversion, hsize, ← crc_cfgSealed]
  simp only [beq_self_eq_true, Bool.and_true]
  decide

/-- Every byte counts: the factor of the sum is odd. -/
theorem rollingSum_ne {pre post : List UInt8} {a b : UInt8} (h : a ≠ b) :
    rollingSum (pre ++ a :: post) ≠ rollingSum (pre ++ b :: post) := by
  refine foldl_ne_of_change (fun a s t hst => ?_) (fun s a b hab => ?_) h pre post _
  · have hodd : s * 31 = t * 31 := by simpa using hst
    -- 0xBDEF7BDF is the inverse of 31
    have hmul := congrArg (fun u => u * 0xBDEF7BDF) hodd
    simpa [UInt32.mul_assoc] using hmul
  · have hbyte : a.toUInt32 = b.toUInt32 := by simpa using hab
    simpa [← UInt32.toNat_inj, ← UInt8.toNat_inj] using hbyte

theorem crc_ne_of_change {c t : Cfg} {i : Nat} {b : UInt8} (hcrc : c.crc = cfgCrc c)
    (hi : i < sizeofCfg) (hb : (Cfg.layout.put c).getD i 0 ≠ b)
    (ht : Cfg.layout.put t = (Cfg.layout.put c).set i b) : t.crc ≠ cfgCrc t := by
  rw [cfgCrc_eq] at hcrc ⊢
  rw [put_layout, put_layout] at ht
  rw [put_layout] at hb
  have hlen := length_body c
  by_cases hbody : i < sizeofCfg - 4
  · -- the checksum stands, the bytes under it have changed
    rw [List.set_append_left _ _ (by omega)] at ht
    obtain ⟨hbodies, hwords⟩ := List.append_inj' ht (by simp)
    have hsame : t.crc = c.crc := Layout.uint32.put_injective hwords
    rw [hsame, hcrc, hbodies]
    have hget : c.body.getD i 0 ≠ b := by rwa [List.getD_append _ _ _ _ (by omega)] at hb
    obtain ⟨pre, a, post, hsplit, hpre⟩ : ∃ pre a post, c.body = pre ++ a :: post ∧ pre.length = i :=
      ⟨c.body.take i, c.body[i], c.body.drop (i + 1), by simp, by rw [List.length_take]; omega⟩
    subst hpre
    rw [hsplit] at hget ⊢
    rw [List.set_append_right _ _ le_rfl, Nat.sub_self, List.set_cons_zero]
    exact rollingSum_ne (by simpa using hget)
  · -- the bytes stand, the checksum has changed
    rw [List.set_append_right _ _ (by omega)] at ht
    obtain ⟨hbodies, hwords⟩ := List.append_inj' ht (by simp)
    rw [hbodies, ← hcrc]
    intro hsame
    rw [hsame] at hwords
    rw [List.getD_append_right _ _ _ _ (by omega), hlen] at hb
    have hword : i - (sizeofCfg - 4) < (Layout.uint32.put c.crc).length := by
      rw [Layout.length_put]
      have hwidth : Layout.uint32.width = 4 := rfl
      have hsize : sizeofCfg = 120 := rfl
      omega
    rw [hwords, hlen, List.getD_eq_getElem _ _ (by simpa using hword)] at hb
    simp at hb

/-! ## The round trip -/

/-- The flash with one byte of the blob changed. -/
def Chip.corrupt (c : Chip) (i : Nat) (b : UInt8) : Chip :=
  { c with mem := fun x => if x = cfgFlashAddr + i then b else c.mem x }

theorem read_corrupt (c : Chip) (i : Nat) (b : UInt8) :
    cfgflashRead (c.corrupt i b) cfgFlashAddr sizeofCfg =
      (cfgflashRead c cfgFlashAddr sizeofCfg).set i b := by
  have hlast : cfgFlashAddr + sizeofCfg ≤ 2 ^ 24 := by decide
  rw [cfgflashRead_eq _ hlast, cfgflashRead_eq _ hlast]
  apply List.ext_getElem
  · simp
  intro k hk hk'
  rw [Mem.getElem_slice, List.getElem_set, Mem.getElem_slice, Chip.corrupt]
  by_cases hhere : i = k
  · simp [hhere]
  · have hother : ¬ (cfgFlashAddr + k = cfgFlashAddr + i) := by omega
    simp only [hhere, hother, if_false]

theorem withOscIp_eq {c : Cfg} (h : c.Allowed) : withOscIp c = c := by
  have hset : ¬ (c.oscPrefix ≠ 16 ∧ c.oscPrefix ≠ 24) := by
    rw [Cfg.Allowed] at h
    tauto
  rw [withOscIp, if_neg hset]

theorem cfgLoad_eq (g : Cfg) {chip : Chip} {t : Cfg}
    (h : cfgflashRead chip cfgFlashAddr sizeofCfg = Cfg.layout.put t) :
    cfgLoad ⟨g, chip⟩ =
      if cfgAccepts t then (⟨withOscIp t, chip⟩, true) else (⟨cfgDefaults, chip⟩, false) := by
  rw [cfgLoad, h, Layout.get_put]

theorem cfg_round_trip (n : Nv) (g : Cfg) (h : n.gCfg.Allowed) :
    cfgLoad ⟨g, (cfgSave n).chip⟩ = (cfgSave n, true) ∧
    (cfgSave n).gCfg =
      { n.gCfg with
        magic := cfgMagic, version := cfgVersion, size := UInt16.ofNat sizeofCfg
        crc := (cfgSave n).gCfg.crc } ∧
    (∀ i < sizeofCfg, ∀ b, (cfgSave n).chip.mem (cfgFlashAddr + i) ≠ b →
      cfgLoad ⟨g, (cfgSave n).chip.corrupt i b⟩ =
        (⟨cfgDefaults, (cfgSave n).chip.corrupt i b⟩, false)) ∧
    ∀ chip : Chip, ∃ c : Cfg, Cfg.layout.put c = Mem.slice chip.mem cfgFlashAddr sizeofCfg ∧
      cfgLoad ⟨g, chip⟩ =
        if cfgAccepts c then (⟨withOscIp c, chip⟩, true) else (⟨cfgDefaults, chip⟩, false) := by
  have hread := read_cfgSave n
  refine ⟨?_, ?_, fun i hi b hb => ?_, fun chip => ?_⟩
  · have hallowed : (cfgSealed n.gCfg).Allowed := h
    rw [cfgLoad_eq g hread, if_pos (accepts_cfgSealed n.gCfg), withOscIp_eq hallowed, ← gCfg_cfgSave]
  · rw [gCfg_cfgSave, cfgSealed]
  · have hslice := read_corrupt (cfgSave n).chip i b
    let t := Cfg.layout.get ((Cfg.layout.put (cfgSealed n.gCfg)).set i b)
    have ht : Cfg.layout.put t = (Cfg.layout.put (cfgSealed n.gCfg)).set i b :=
      Cfg.layout.put_get _ (by rw [List.length_set, Layout.length_put])
    have hchanged : (Cfg.layout.put (cfgSealed n.gCfg)).getD i 0 ≠ b := by
      rwa [← hread, cfgflashRead_eq _ (by decide), Mem.getD_slice hi]
    have hcrc : t.crc ≠ cfgCrc t := crc_ne_of_change (crc_cfgSealed _) hi hchanged ht
    have hrejected : ¬ cfgAccepts t := by
      simp [cfgAccepts, hcrc]
    rw [hread, ← ht] at hslice
    rw [cfgLoad_eq g hslice, if_neg hrejected]
  · refine ⟨Cfg.layout.get (cfgflashRead chip cfgFlashAddr sizeofCfg), ?_, ?_⟩
    · rw [cfgflashRead_eq _ (by decide)]
      exact Cfg.layout.put_get _ (Mem.length_slice _ _ _)
    · rw [cfgLoad]

/-- A board with a learned rate, saved over a sector that was programmed before. -/
def wornBoard : Nv :=
  ⟨{ cfgDefaults with oscPrefix := 24, mclkPpb := -4300, mclkPpbValid := 1 }, ⟨fun _ => 0x5A, false⟩⟩

theorem cfg_round_trip_worn :
    cfgLoad ⟨cfgDefaults, (cfgSave wornBoard).chip⟩ = (cfgSave wornBoard, true) ∧
      (cfgSave wornBoard).gCfg.mclkPpb = -4300 :=
  ⟨(cfg_round_trip wornBoard cfgDefaults (by decide)).1, rfl⟩

end Firmware
end InfernoFpga
