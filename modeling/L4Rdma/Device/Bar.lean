import L4Rdma.Device.Pci

/-!
# The base address registers of a PCI device

`map_pci_bar` of `server/src/device.cc` finds out where a region of the device is on the bus and how
large it is, and has the region manager attach it. A base address register says where: the bits of
the address are the ones that can be written, and the bits below them, which the device has wired,
tell the kind of the region. The driver writes all ones to the register, reads back the bits that
can be written, which are the size in two's complement, and writes the old contents again.

A probe of a register leaves the whole configuration space as it was (`probeBar_ok`), and the masks
of the function separate the address and the size from the flags (`addrBits`, `sizeBits`). The kind
is what goes wrong: the function looks for a 64-bit register at bit 2 before it looks at bit 0, which
tells I/O space from memory. In an I/O register bit 2 is part of the address. The function attaches
the region of a register exactly when the register is not for an I/O region whose address has that
bit (`mapPciBar_iff`).
-/

namespace L4Rdma.Device

open Lib

/-! ## The state -/

/-- A region on the bus: its address, and its number of bytes. -/
structure Region where
  addr : ℕ
  size : ℕ
  deriving DecidableEq, Repr

/-- The device, and the regions of the bus that have been attached. -/
structure Board where
  dev : PciDev
  attached : List Region

/-- The region manager: the place that it finds for a region, if it attaches it. -/
abbrev Rm : Type := Region → Option ℕ

/-- The device after a 32-bit write. -/
def PciDev.write (dev : PciDev) (reg : ℕ) (value : Word) : PciDev :=
  let latched := dev.latch reg (cfgRead32 dev.cfg reg) value
  { dev with cfg := fun off =>
      if reg ≤ off ∧ off < reg + 4 then latched.extractLsb' (8 * (off - reg)) 8 else dev.cfg off }

/-- `cfg_read(reg, &value, 32)` of the board's device. -/
def read32 (reg : ℕ) : Exec Board Word := do
  let board ← get
  return cfgRead32 board.dev.cfg reg

/-- `cfg_write(reg, value, 32)`. -/
def write32 (reg : ℕ) (value : Word) : Exec Board Unit :=
  modify fun board => { board with dev := board.dev.write reg value }

/-- `rm()->attach(&mem_addr, size, .., ds, addr, ..)`. -/
def attach (rm : Rm) (r : Region) : Exec Board ℕ := do
  modify fun board => { board with attached := board.attached ++ [r] }
  match rm r with
  | some mem_addr => return mem_addr
  | none => throw (.thrown "")

/-! ## `map_pci_bar` -/

/-- The accesses that find out which bits of a register can be written: its contents, and what it
reads as after all ones have been written. -/
def probeBar (reg : ℕ) : Exec Board (Word × Word) := do
  let addr ← read32 reg
  write32 reg 0xffffffff
  let size ← read32 reg
  write32 reg addr
  return (addr, size)

/-- `l4_round_page`. -/
def roundPage (size : BitVec 64) : BitVec 64 := (size + 4095) &&& ~~~4095

/-- The address and the size that `map_pci_bar` takes from register `idx`. -/
def barRegion (idx : ℕ) (lsb_addr lsb_size : Word) : Exec Board (BitVec 64 × BitVec 64) :=
  if lsb_addr &&& 0x4 ≠ 0 then do
    -- 64-bit MEM-BAR
    let (msb_addr, msb_size) ← probeBar (0x14 + idx * 4)
    let bar_addr := msb_addr.setWidth 64 <<< 32 + (lsb_addr &&& 0xfffffff0).setWidth 64
    let bar_size := msb_size.setWidth 64 <<< 32 + (lsb_size &&& 0xfffffff0).setWidth 64
    return (bar_addr, ~~~bar_size + 1)
  else if lsb_addr &&& 0x1 ≠ 0 then
    -- 32-bit IO-BAR
    return ((lsb_addr &&& 0xfffffffc).setWidth 64, (~~~(lsb_size &&& 0xfffffffc) + 1).setWidth 64)
  else
    -- 32-bit MEM-BAR
    return ((lsb_addr &&& 0xfffffff0).setWidth 64, (~~~(lsb_size &&& 0xfffffff0) + 1).setWidth 64)

/-- `Device::map_pci_bar`. -/
def mapPciBar (rm : Rm) (idx : ℕ) : Exec Board ℕ := do
  -- Disable mem and io spaces.
  let cmd ← read32 0x04
  let cmd := cmd &&& 0xfffffffc
  let cmd := cmd ||| (1 : Word) <<< 2
  write32 0x04 cmd
  let (lsb_addr, lsb_size) ← probeBar (0x10 + idx * 4)
  let (bar_addr, bar_size) ← barRegion idx lsb_addr lsb_size
  -- Reenable mem and io spaces.
  let cmd ← read32 0x04
  let cmd := cmd &&& 0xfffffffc
  let cmd := cmd + 0x00000003
  write32 0x04 cmd
  attach rm ⟨bar_addr.toNat, (roundPage bar_size).toNat⟩

/-! ## Reads and writes of the configuration space -/

/-- A register reads as what the device has made of the last write to it. -/
theorem cfgRead32_write_same (dev : PciDev) (reg : ℕ) (value : Word) :
    cfgRead32 (dev.write reg value).cfg reg = dev.latch reg (cfgRead32 dev.cfg reg) value :=
  load32_store32_same dev.cfg reg _

/-- A write leaves the other registers as they were. -/
theorem cfgRead32_write_of_ne (dev : PciDev) {reg reg' : ℕ} (value : Word)
    (h : reg + 4 ≤ reg' ∨ reg' + 4 ≤ reg) :
    cfgRead32 (dev.write reg value).cfg reg' = cfgRead32 dev.cfg reg' :=
  load32_store32_of_apart h

/-- The device is the same again when the register has its old contents. -/
theorem write_write (dev : PciDev) (reg : ℕ) (value : Word)
    (h : dev.latch reg (cfgRead32 (dev.write reg value).cfg reg) (cfgRead32 dev.cfg reg) =
      cfgRead32 dev.cfg reg) :
    (dev.write reg value).write reg (cfgRead32 dev.cfg reg) = dev := by
  have hcfg : ((dev.write reg value).write reg (cfgRead32 dev.cfg reg)).cfg = dev.cfg := by
    funext off
    show (if reg ≤ off ∧ off < reg + 4 then
      (dev.latch reg (cfgRead32 (dev.write reg value).cfg reg)
        (cfgRead32 dev.cfg reg)).extractLsb' (8 * (off - reg)) 8
      else if reg ≤ off ∧ off < reg + 4 then _ else dev.cfg off) = dev.cfg off
    rw [h]
    split_ifs with hoff
    · -- One of the four bytes of the register.
      obtain ⟨i, rfl⟩ : ∃ i, off = reg + i := ⟨off - reg, by omega⟩
      have hi : i < 4 := by omega
      rw [Nat.add_sub_cancel_left]
      refine BitVec.eq_of_getLsbD_eq fun j hj => ?_
      unfold cfgRead32
      simp only [BitVec.getLsbD_extractLsb', BitVec.getLsbD_append]
      interval_cases i <;> interval_cases j <;> rfl
    · rfl
  calc (dev.write reg value).write reg (cfgRead32 dev.cfg reg)
      = { dev with cfg := ((dev.write reg value).write reg (cfgRead32 dev.cfg reg)).cfg } := rfl
    _ = dev := by rw [hcfg]

/-! ## Registers that conform to PCI -/

/-- The offset of base address register `idx`. -/
def barReg (idx : ℕ) : ℕ := 0x10 + idx * 4

/-- A register of which the bits in `mask` can be written and the others are wired. -/
structure Wired (dev : PciDev) (reg : ℕ) (mask value : Word) : Prop where
  reads : cfgRead32 dev.cfg reg = value
  latches : ∀ old w, dev.latch reg old w = (w &&& mask) ||| (value &&& ~~~mask)

/-- A probe returns the contents of a register, and the contents with all writable bits set. It
leaves the board as it was. -/
theorem probeBar_ok {board : Board} {reg : ℕ} {mask value : Word}
    (h : Wired board.dev reg mask value) :
    probeBar reg board = .ok (value, mask ||| (value &&& ~~~mask)) board := by
  have hones : cfgRead32 (board.dev.write reg 0xffffffff).cfg reg =
      mask ||| (value &&& ~~~mask) := by
    rw [cfgRead32_write_same, h.latches]
    congr 1
    exact BitVec.allOnes_and
  have hback : (board.dev.write reg 0xffffffff).write reg (cfgRead32 board.dev.cfg reg) =
      board.dev := by
    apply write_write
    rw [h.latches, h.reads, ← BitVec.and_or_distrib_left, BitVec.or_not_self, BitVec.and_allOnes]
  show EStateM.Result.ok (cfgRead32 board.dev.cfg reg,
      cfgRead32 (board.dev.write reg 0xffffffff).cfg reg)
    { board with
      dev := (board.dev.write reg 0xffffffff).write reg (cfgRead32 board.dev.cfg reg) } = _
  rw [hones, hback, h.reads]

/-- The kinds of regions. -/
inductive BarKind
  | mem32
  | mem64
  | io
  deriving DecidableEq, Repr

/-- The number of the flag bits of a register. -/
def BarKind.flagBits : BarKind → ℕ
  | .mem32 | .mem64 => 4
  | .io => 2

/-- The width of the addresses. -/
def BarKind.width : BarKind → ℕ
  | .mem32 | .io => 32
  | .mem64 => 64

/-- The flags of a kind: bit 0 is set for I/O space only, and bit 2 says that a register for memory
has 64 bits. -/
def BarKind.Flags : BarKind → Word → Prop
  | .mem32, flags => flags.getLsbD 0 = false ∧ flags.getLsbD 2 = false
  | .mem64, flags => flags.getLsbD 0 = false ∧ flags.getLsbD 1 = false ∧ flags.getLsbD 2 = true
  | .io, flags => flags.getLsbD 0 = true ∧ flags.getLsbD 1 = false

/-- The bits of an address that a region of the size `2 ^ k` leaves to be written. -/
def sizeMask (k : ℕ) : BitVec 64 := BitVec.allOnes 64 <<< k

/-- Register `idx` is for a region of a kind, with `2 ^ k` bytes at the address `a`. -/
structure Conforms (dev : PciDev) (idx : ℕ) (kind : BarKind) (k a : ℕ) (flags : Word) : Prop where
  idx_lt : idx < 6
  flagBits_le : kind.flagBits ≤ k
  log_lt : k < kind.width
  addr_lt : a < 2 ^ kind.width
  aligned : 2 ^ k ∣ a
  flags_lt : flags.toNat < 2 ^ kind.flagBits
  flags_ok : kind.Flags flags
  low : Wired dev (barReg idx) ((sizeMask k).setWidth 32) (lsb a ||| flags)
  high : kind = .mem64 →
    idx + 1 < 6 ∧ Wired dev (barReg (idx + 1)) ((sizeMask k).extractLsb' 32 32) (msb a)

/-! ## The bits of the address and of the size -/

/-- An address has no bits below its alignment. -/
theorem testBit_of_aligned {k a i : ℕ} (h : 2 ^ k ∣ a) (hi : i < k) : a.testBit i = false := by
  obtain ⟨c, rfl⟩ := h
  rw [Nat.testBit_two_pow_mul]
  simp [hi]

/-- The flags have no bits above their number. -/
theorem getLsbD_flags {flags : Word} {m i : ℕ} (h : flags.toNat < 2 ^ m) (hi : m ≤ i) :
    flags.getLsbD i = false :=
  Nat.testBit_lt_two_pow (Nat.lt_of_lt_of_le h (Nat.pow_le_pow_right (by norm_num) hi))

/-- The mask of the function takes the flags off the address. -/
theorem addrBits {k a m : ℕ} {flags : Word} (hm : m ≤ k) (ha : 2 ^ k ∣ a)
    (hflags : flags.toNat < 2 ^ m) :
    (lsb a ||| flags) &&& (BitVec.allOnes 32 <<< m) = lsb a := by
  refine BitVec.eq_of_getLsbD_eq fun i hi => ?_
  rw [BitVec.getLsbD_and, BitVec.getLsbD_or, BitVec.getLsbD_shiftLeft, BitVec.getLsbD_allOnes]
  have hlsb : (lsb a).getLsbD i = a.testBit i := by
    unfold lsb
    rw [BitVec.getLsbD_ofNat]
    simp [hi]
  rw [hlsb]
  by_cases hlow : i < m
  · rw [testBit_of_aligned ha (by omega)]
    simp [hlow]
  · rw [getLsbD_flags hflags (by omega)]
    simp [hlow, hi]
    omega

/-- And it takes them off the size that a probe returns. -/
theorem sizeBits {k a m : ℕ} {flags : Word} (hm : m ≤ k) (ha : 2 ^ k ∣ a)
    (hflags : flags.toNat < 2 ^ m) :
    ((sizeMask k).setWidth 32 ||| ((lsb a ||| flags) &&& ~~~(sizeMask k).setWidth 32)) &&&
      (BitVec.allOnes 32 <<< m) = (sizeMask k).setWidth 32 := by
  refine BitVec.eq_of_getLsbD_eq fun i hi => ?_
  have hmask : ((sizeMask k).setWidth 32).getLsbD i = decide (k ≤ i) := by
    unfold sizeMask
    rw [BitVec.getLsbD_setWidth, BitVec.getLsbD_shiftLeft, BitVec.getLsbD_allOnes]
    grind
  have hlsb : (lsb a).getLsbD i = a.testBit i := by
    unfold lsb
    rw [BitVec.getLsbD_ofNat]
    simp [hi]
  rw [BitVec.getLsbD_and, BitVec.getLsbD_or, BitVec.getLsbD_and, BitVec.getLsbD_or,
    BitVec.getLsbD_not, hmask, hlsb, BitVec.getLsbD_shiftLeft, BitVec.getLsbD_allOnes]
  by_cases hk : k ≤ i
  · grind
  · -- Below the size there are the flags alone, and the mask takes them off.
    rw [testBit_of_aligned ha (by omega)]
    by_cases hlow : i < m
    · grind
    · rw [getLsbD_flags hflags (by omega)]
      grind

/-- The upper half of the size mask covers the upper half of the address. -/
theorem highBits {k a : ℕ} (ha : 2 ^ k ∣ a) :
    (sizeMask k).extractLsb' 32 32 ||| (msb a &&& ~~~(sizeMask k).extractLsb' 32 32) =
      (sizeMask k).extractLsb' 32 32 := by
  refine BitVec.eq_of_getLsbD_eq fun i hi => ?_
  have hmask : ((sizeMask k).extractLsb' 32 32).getLsbD i = decide (k ≤ 32 + i) := by
    unfold sizeMask
    rw [BitVec.getLsbD_extractLsb', BitVec.getLsbD_shiftLeft, BitVec.getLsbD_allOnes]
    grind
  have hmsb : (msb a).getLsbD i = a.testBit (32 + i) := by
    unfold msb
    rw [BitVec.getLsbD_ofNat, Nat.testBit_shiftRight]
    simp [hi]
  rw [BitVec.getLsbD_or, BitVec.getLsbD_and, BitVec.getLsbD_not, hmask, hmsb]
  by_cases hk : k ≤ 32 + i
  · simp [hk]
  · rw [testBit_of_aligned ha (by omega)]
    simp

/-- The size is the two's complement of the mask. -/
theorem toNat_not_mask {w k : ℕ} (h : k < w) :
    (~~~(BitVec.allOnes w <<< k) + 1).toNat = 2 ^ k := by
  have hneg : ~~~(BitVec.allOnes w <<< k) + 1#w = BitVec.twoPow w k := by
    rw [← BitVec.neg_eq_not_add, BitVec.shiftLeft_eq_mul_twoPow, ← BitVec.neg_one_eq_allOnes,
      BitVec.neg_mul, BitVec.neg_neg, BitVec.one_mul]
  show (~~~(BitVec.allOnes w <<< k) + 1#w).toNat = _
  rw [hneg, BitVec.toNat_twoPow_of_lt h]

/-- In 32 bits the mask is the same. -/
theorem sizeMask_low {k : ℕ} : (sizeMask k).setWidth 32 = BitVec.allOnes 32 <<< k := by
  refine BitVec.eq_of_getLsbD_eq fun i hi => ?_
  unfold sizeMask
  rw [BitVec.getLsbD_setWidth, BitVec.getLsbD_shiftLeft, BitVec.getLsbD_shiftLeft,
    BitVec.getLsbD_allOnes, BitVec.getLsbD_allOnes]
  grind

/-- The sum that puts the two halves of a 64-bit register together. -/
theorem halves (m l : Word) : m.setWidth 64 <<< 32 + l.setWidth 64 = m ++ l := by
  have hm := m.isLt
  have hl := l.isLt
  apply BitVec.eq_of_toNat_eq
  rw [BitVec.toNat_add, BitVec.toNat_shiftLeft, BitVec.toNat_setWidth_of_le (by norm_num),
    BitVec.toNat_setWidth_of_le (by norm_num), BitVec.toNat_append,
    ← Nat.shiftLeft_add_eq_or_of_lt hl, Nat.shiftLeft_eq]
  omega

/-- The mask of a size, from its halves. -/
theorem sizeMask_halves (k : ℕ) :
    (sizeMask k).extractLsb' 32 32 ++ (sizeMask k).setWidth 32 = sizeMask k := by
  refine BitVec.eq_of_getLsbD_eq fun i hi => ?_
  rw [BitVec.getLsbD_append, BitVec.getLsbD_extractLsb', BitVec.getLsbD_setWidth]
  grind

/-- A test for one bit of a register. -/
theorem and_twoPow_ne_zero_iff (w : Word) {i : ℕ} (hi : i < 32) :
    w &&& BitVec.twoPow 32 i ≠ 0 ↔ w.getLsbD i = true := by
  rw [BitVec.and_twoPow]
  split_ifs with hbit
  · refine iff_of_true (fun hzero => ?_) hbit
    have hnat := congrArg BitVec.toNat hzero
    rw [BitVec.toNat_twoPow_of_lt hi] at hnat
    exact absurd hnat (by positivity)
  · exact iff_of_false (fun hne => hne rfl) hbit

/-- The page size is a power of two, so the mask rounds up. -/
theorem toNat_roundPage {size : BitVec 64} {k : ℕ} (h : size.toNat = 2 ^ k) (hk : k < 64) :
    (roundPage size).toNat = (2 ^ k + 4095) / 4096 * 4096 := by
  have hle : 2 ^ k ≤ 2 ^ 63 := Nat.pow_le_pow_right (by norm_num) (by omega)
  have hsum : (size + 4095).toNat = 2 ^ k + 4095 := by
    have hpage : (4095 : BitVec 64).toNat = 4095 := rfl
    rw [BitVec.toNat_add, h, hpage]
    exact Nat.mod_eq_of_lt (by omega)
  have hmask : (~~~(4095 : BitVec 64)) = BitVec.allOnes 64 <<< 12 := by decide
  have hclear : ∀ x : BitVec 64, x &&& BitVec.allOnes 64 <<< 12 = (x >>> 12) <<< 12 := by
    intro x
    refine BitVec.eq_of_getLsbD_eq fun i hi => ?_
    simp only [BitVec.getLsbD_and, BitVec.getLsbD_shiftLeft, BitVec.getLsbD_allOnes,
      BitVec.getLsbD_ushiftRight]
    grind
  unfold roundPage
  rw [hmask, hclear, BitVec.toNat_shiftLeft, BitVec.toNat_ushiftRight, hsum,
    Nat.shiftRight_eq_div_pow, Nat.shiftLeft_eq]
  omega

/-! ## The region that is attached -/

/-- A write to another register leaves a wired register as it is. -/
theorem Wired.write {dev : PciDev} {reg reg' : ℕ} {mask value : Word}
    (h : Wired dev reg' mask value) (w : Word) (hreg : reg + 4 ≤ reg') :
    Wired (dev.write reg w) reg' mask value :=
  ⟨(cfgRead32_write_of_ne dev w (.inl hreg)).trans h.reads, h.latches⟩

/-- Bit `i` of the lower half of a register, above the flags. -/
theorem getLsbD_low {a m i : ℕ} {flags : Word} (hflags : flags.toNat < 2 ^ m) (hi : i < 32)
    (hmi : m ≤ i) : (lsb a ||| flags).getLsbD i = a.testBit i := by
  unfold lsb
  rw [BitVec.getLsbD_or, getLsbD_flags hflags hmi, BitVec.getLsbD_ofNat]
  simp [hi]

/-- Bit `i` of the lower half of a register, among the flags of memory. -/
theorem getLsbD_flag {k a i : ℕ} {flags : Word} (ha : 2 ^ k ∣ a) (hi : i < k) :
    (lsb a ||| flags).getLsbD i = flags.getLsbD i := by
  unfold lsb
  rw [BitVec.getLsbD_or, BitVec.getLsbD_ofNat, testBit_of_aligned ha hi]
  simp

/-- What a probe of the lower half of a register reads for the size. -/
def probedSize (k a : ℕ) (flags : Word) : Word :=
  (sizeMask k).setWidth 32 ||| ((lsb a ||| flags) &&& ~~~(sizeMask k).setWidth 32)

/-- The mask for a base address register of memory. -/
theorem mask_eq_four : (0xfffffff0 : Word) = BitVec.allOnes 32 <<< 4 := by decide

/-- The mask for a base address register of I/O space. -/
theorem mask_eq_two : (0xfffffffc : Word) = BitVec.allOnes 32 <<< 2 := by decide

/-- In 32 bits the address and the size are those of the region. -/
theorem toNat_32 {k a m : ℕ} {flags : Word} (hm : m ≤ k) (hk : k < 32) (ha : a < 2 ^ 32)
    (haligned : 2 ^ k ∣ a) (hflags : flags.toNat < 2 ^ m) :
    (((lsb a ||| flags) &&& BitVec.allOnes 32 <<< m).setWidth 64).toNat = a ∧
      ((~~~(probedSize k a flags &&& BitVec.allOnes 32 <<< m) + 1).setWidth 64).toNat = 2 ^ k := by
  unfold probedSize
  constructor
  · rw [addrBits hm haligned hflags, BitVec.toNat_setWidth_of_le (by norm_num)]
    unfold lsb
    rw [BitVec.toNat_ofNat, Nat.mod_eq_of_lt ha]
  · rw [sizeBits hm haligned hflags, BitVec.toNat_setWidth_of_le (by norm_num), sizeMask_low]
    exact toNat_not_mask hk

/-- Unless an address bit of an I/O register is taken for a flag, the function finds the region. -/
theorem barRegion_ok {board : Board} {idx k a : ℕ} {kind : BarKind} {flags : Word}
    (h : Conforms board.dev idx kind k a flags) (hbit : kind = .io → a.testBit 2 = false) :
    ∃ bar_addr bar_size, barRegion idx (lsb a ||| flags) (probedSize k a flags) board =
      .ok (bar_addr, bar_size) board ∧ bar_addr.toNat = a ∧ bar_size.toNat = 2 ^ k := by
  have hflagBits := h.flagBits_le
  have hlog := h.log_lt
  have haddr := h.addr_lt
  have hflags := h.flags_lt
  have hok := h.flags_ok
  -- The function tells the kinds apart by bits 2 and 0.
  have hfour : (lsb a ||| flags) &&& 0x4 ≠ 0 ↔ (lsb a ||| flags).getLsbD 2 = true :=
    and_twoPow_ne_zero_iff _ (i := 2) (by norm_num)
  have hone : (lsb a ||| flags) &&& 0x1 ≠ 0 ↔ (lsb a ||| flags).getLsbD 0 = true :=
    and_twoPow_ne_zero_iff _ (i := 0) (by norm_num)
  unfold barRegion
  cases kind with
  | mem32 =>
    simp only [BarKind.flagBits, BarKind.width] at hflagBits hlog haddr hflags
    rw [getLsbD_flag h.aligned (by omega)] at hfour hone
    -- Memory below 4 GiB has both of these bits clear.
    have hnot₂ : ¬ (lsb a ||| flags) &&& 0x4 ≠ 0 := by rw [hfour, hok.2]; decide
    have hnot₀ : ¬ (lsb a ||| flags) &&& 0x1 ≠ 0 := by rw [hone, hok.1]; decide
    have hnat := toNat_32 hflagBits hlog haddr h.aligned hflags
    rw [if_neg hnot₂, if_neg hnot₀, mask_eq_four]
    exact ⟨_, _, rfl, hnat⟩
  | io =>
    simp only [BarKind.flagBits, BarKind.width] at hflagBits hlog haddr hflags
    rw [getLsbD_low hflags (by norm_num) (le_refl 2)] at hfour
    -- I/O space has bit 0 set. Bit 2 belongs to the address there.
    have hnot₂ : ¬ (lsb a ||| flags) &&& 0x4 ≠ 0 := by rw [hfour, hbit rfl]; decide
    have hio : (lsb a ||| flags) &&& 0x1 ≠ 0 := by
      rw [hone, getLsbD_flag h.aligned (by omega)]
      exact hok.1
    have hnat := toNat_32 hflagBits hlog haddr h.aligned hflags
    rw [if_neg hnot₂, if_pos hio, mask_eq_two]
    exact ⟨_, _, rfl, hnat⟩
  | mem64 =>
    simp only [BarKind.flagBits, BarKind.width] at hflagBits hlog haddr hflags
    -- Memory of 64 bits has its upper half in the next register, which is probed as well.
    have hhigh := probeBar_ok (h.high rfl).2
    have hmem : (lsb a ||| flags) &&& 0x4 ≠ 0 := by
      rw [hfour, getLsbD_flag h.aligned (by omega)]
      exact hok.2.2
    have hreg : barReg (idx + 1) = 0x14 + idx * 4 := by
      unfold barReg
      omega
    rw [highBits h.aligned, hreg] at hhigh
    rw [if_pos hmem, bind_of_ok hhigh]
    refine ⟨_, _, rfl, ?_, ?_⟩
    · -- The address comes from both halves.
      rw [mask_eq_four, addrBits hflagBits h.aligned hflags, halves, BitVec.toNat_append]
      exact address_msb_lsb haddr
    · -- So does the mask of the size.
      unfold probedSize
      rw [mask_eq_four, sizeBits hflagBits h.aligned hflags, halves, sizeMask_halves]
      exact toNat_not_mask hlog

/-- An address bit of an I/O register that is taken for the flag of a 64-bit register is lost. -/
theorem barRegion_of_ioBit {board : Board} {idx a : ℕ} {flags size : Word} (ha : a.testBit 2 = true)
    (hflags : flags.toNat < 2 ^ 2) :
    ∃ bar_addr bar_size board', barRegion idx (lsb a ||| flags) size board =
      .ok (bar_addr, bar_size) board' ∧ board'.attached = board.attached ∧
        bar_addr.toNat.testBit 2 = false := by
  have hmem : (lsb a ||| flags) &&& 0x4 ≠ 0 := by
    have hfour : (lsb a ||| flags) &&& 0x4 ≠ 0 ↔ (lsb a ||| flags).getLsbD 2 = true :=
      and_twoPow_ne_zero_iff _ (i := 2) (by norm_num)
    rw [hfour, getLsbD_low hflags (by norm_num) (le_refl 2)]
    exact ha
  unfold barRegion
  rw [if_pos hmem]
  refine ⟨_, _, _, rfl, rfl, ?_⟩
  rw [halves]
  have hlost : ∀ m w : Word, (m ++ (w &&& 0xfffffff0)).toNat.testBit 2 = false := by
    intro m w
    rw [BitVec.testBit_toNat, BitVec.getLsbD_append, mask_eq_four, BitVec.getLsbD_and,
      BitVec.getLsbD_shiftLeft]
    simp
  exact hlost _ _

/-- A region has been attached, and the base address registers are as they were. -/
structure Mapped (board : Board) (r : Region) (board' : Board) : Prop where
  attached : board'.attached = board.attached ++ [r]
  bars : ∀ i < 6, cfgRead32 board'.dev.cfg (barReg i) = cfgRead32 board.dev.cfg (barReg i)

/-- `map_pci_bar` hands the region to the region manager, which decides how the function ends. -/
def MapsRegion (rm : Rm) (idx : ℕ) (board : Board) (r : Region) : Prop :=
  Ends (mapPciBar rm idx) board (fun mem_addr board' => rm r = some mem_addr ∧ Mapped board r board')
    fun _ board' => rm r = none ∧ Mapped board r board'

/-- The spaces are disabled before the probes. -/
def disabled (board : Board) : Board :=
  let cmd := cfgRead32 board.dev.cfg 0x04 &&& 0xfffffffc
  { board with dev := board.dev.write 0x04 (cmd ||| (1 : Word) <<< 2) }

/-- And they are enabled after them. -/
def enabled (board : Board) : Board :=
  let cmd := cfgRead32 board.dev.cfg 0x04 &&& 0xfffffffc
  { board with dev := board.dev.write 0x04 (cmd + 0x00000003) }

/-- The function attaches what it has found out about the region. -/
theorem mapPciBar_of_region {rm : Rm} {idx : ℕ} {board board' : Board} {lsb_addr lsb_size : Word}
    {bar_addr bar_size : BitVec 64}
    (hprobe : probeBar (barReg idx) (disabled board) = .ok (lsb_addr, lsb_size) (disabled board))
    (hregion : barRegion idx lsb_addr lsb_size (disabled board) = .ok (bar_addr, bar_size) board') :
    mapPciBar rm idx board =
      attach rm ⟨bar_addr.toNat, (roundPage bar_size).toNat⟩ (enabled board') := by
  have hread : ∀ b : Board, read32 0x04 b = .ok (cfgRead32 b.dev.cfg 0x04) b := fun _ => rfl
  have hwrite : ∀ (b : Board) (w : Word),
      write32 0x04 w b = .ok () { b with dev := b.dev.write 0x04 w } := fun _ _ => rfl
  unfold mapPciBar
  refine (bind_of_ok (hread board)).trans ((bind_of_ok (hwrite board _)).trans ?_)
  refine (bind_of_ok hprobe).trans ((bind_of_ok hregion).trans ?_)
  exact (bind_of_ok (hread board')).trans (bind_of_ok (hwrite board' _))

/-- The region manager's answer is what the function returns. -/
theorem ends_attach {rm : Rm} {r : Region} {board : Board} {Q : ℕ → Board → Prop}
    {E : Stop → Board → Prop}
    (hQ : ∀ mem_addr, rm r = some mem_addr →
      Q mem_addr { board with attached := board.attached ++ [r] })
    (hE : rm r = none → E (.thrown "") { board with attached := board.attached ++ [r] }) :
    Ends (attach rm r) board Q E := by
  cases h : rm r with
  | some mem_addr =>
    have hres : attach rm r board =
        .ok mem_addr { board with attached := board.attached ++ [r] } := by
      unfold attach
      rw [modify_bind, h]
      rfl
    exact ends_of_ok hres (hQ mem_addr h)
  | none =>
    have hres : attach rm r board =
        .error (.thrown "") { board with attached := board.attached ++ [r] } := by
      unfold attach
      rw [modify_bind, h]
      rfl
    exact ends_of_error hres (hE h)

/-- The command register is below the base address registers. -/
theorem cmd_lt_barReg (idx : ℕ) : 0x04 + 4 ≤ barReg idx := by
  unfold barReg
  omega

/-- A register still conforms after the spaces have been disabled. -/
theorem Conforms.disabled {board : Board} {idx k a : ℕ} {kind : BarKind} {flags : Word}
    (h : Conforms board.dev idx kind k a flags) :
    Conforms (disabled board).dev idx kind k a flags :=
  { h with
    low := h.low.write _ (cmd_lt_barReg idx)
    high := fun hk => ⟨(h.high hk).1, (h.high hk).2.write _ (cmd_lt_barReg (idx + 1))⟩ }

/-- The function does not attach the region when an address bit of an I/O register is in the place
of the flag for 64 bits: the address that it attaches has the bit clear. -/
theorem not_mapsRegion_of_ioBit {rm : Rm} {idx : ℕ} {board : Board} {k a size : ℕ} {flags : Word}
    (h : Conforms board.dev idx .io k a flags) (hbit : a.testBit 2 = true) :
    ¬ MapsRegion rm idx board ⟨a, size⟩ := by
  intro hmaps
  obtain ⟨bar_addr, bar_size, board', hregion, hatt, hclear⟩ :=
    @barRegion_of_ioBit (disabled board) idx a flags (probedSize k a flags) hbit h.flags_lt
  have hrun : mapPciBar rm idx board =
      attach rm ⟨bar_addr.toNat, (roundPage bar_size).toNat⟩ (enabled board') :=
    mapPciBar_of_region (probeBar_ok h.disabled.low) hregion
  have hdiffers : ∀ board'', Mapped board ⟨a, size⟩ board'' →
      board''.attached ≠ board'.attached ++ [⟨bar_addr.toNat, (roundPage bar_size).toNat⟩] := by
    intro board'' hmapped heq
    rw [hmapped.attached, hatt] at heq
    have haddr : a = bar_addr.toNat :=
      congrArg Region.addr (List.singleton_inj.mp (List.append_cancel_left heq))
    rw [haddr, hclear] at hbit
    cases hbit
  have hattach : Ends (attach rm ⟨bar_addr.toNat, (roundPage bar_size).toNat⟩) (enabled board')
      (fun _ board'' => board''.attached = board'.attached ++ [_])
      fun _ board'' => board''.attached = board'.attached ++ [_] :=
    ends_attach (fun _ _ => rfl) fun _ => rfl
  rcases (Ends.congr hrun hattach).cases with ⟨mem_addr, board'', hx, heq⟩ | ⟨e, board'', hx, heq⟩
  · exact hdiffers board'' (hmaps.1 _ _ hx).2 heq
  · exact hdiffers board'' (hmaps.2 _ _ hx).2 heq

/-- `map_pci_bar` attaches the region of a register, in whole pages, and leaves the registers as
they were, exactly when no address bit of an I/O region is in the place of the flag for 64 bits. -/
theorem mapPciBar_iff (rm : Rm) (idx : ℕ) (board : Board) (kind : BarKind) (k a : ℕ) (flags : Word)
    (h : Conforms board.dev idx kind k a flags) :
    MapsRegion rm idx board ⟨a, (2 ^ k + 4095) / 4096 * 4096⟩ ↔
      ¬ (kind = .io ∧ a.testBit 2 = true) := by
  constructor
  · rintro hmaps ⟨rfl, hbit⟩
    exact not_mapsRegion_of_ioBit h hbit hmaps
  · intro hnot
    have hbit : kind = .io → a.testBit 2 = false := fun hk =>
      Bool.eq_false_iff.mpr fun hset => hnot ⟨hk, hset⟩
    obtain ⟨bar_addr, bar_size, hregion, haddr, hsize⟩ := barRegion_ok h.disabled hbit
    have hrun : mapPciBar rm idx board =
        attach rm ⟨bar_addr.toNat, (roundPage bar_size).toNat⟩ (enabled (disabled board)) :=
      mapPciBar_of_region (probeBar_ok h.disabled.low) hregion
    have hwidth : k < 64 := by
      have hlog := h.log_lt
      cases kind <;> simp only [BarKind.width] at hlog <;> omega
    have hbars : ∀ i, cfgRead32 (enabled (disabled board)).dev.cfg (barReg i) =
        cfgRead32 board.dev.cfg (barReg i) := fun i =>
      (cfgRead32_write_of_ne _ _ (.inl (cmd_lt_barReg i))).trans
        (cfgRead32_write_of_ne _ _ (.inl (cmd_lt_barReg i)))
    rw [haddr, toNat_roundPage hsize hwidth] at hrun
    apply Ends.congr hrun
    exact ends_attach (fun mem_addr hrm => ⟨hrm, rfl, fun i _ => hbars i⟩) fun hrm =>
      ⟨hrm, rfl, fun i _ => hbars i⟩

/-- A device with 16 MiB of memory at the address `0x1200000000`. -/
def memDev : PciDev where
  cfg := fun off => if off = 0x10 then 0x0c else if off = 0x14 then 0x12 else 0
  latch := fun reg _ w => if reg = 0x10 then (w &&& 0xff000000) ||| 0x0c else w

/-- The region of this device is mapped. -/
theorem mapPciBar_memDev :
    MapsRegion (fun r => some r.addr) 0 ⟨memDev, []⟩ ⟨0x1200000000, 0x1000000⟩ := by
  have hlow : Wired memDev (barReg 0) ((sizeMask 24).setWidth 32) (lsb 0x1200000000 ||| 0x0c) :=
    ⟨by decide, fun _ _ => rfl⟩
  have hhigh : Wired memDev (barReg 1) ((sizeMask 24).extractLsb' 32 32) (msb 0x1200000000) := by
    refine ⟨by decide, fun _ w => ?_⟩
    have hmask : (sizeMask 24).extractLsb' 32 32 = BitVec.allOnes 32 := by decide
    have hwired : msb 0x1200000000 &&& ~~~BitVec.allOnes 32 = 0 := by decide
    rw [hmask, hwired, BitVec.and_allOnes]
    exact (BitVec.or_zero).symm
  have hconforms : Conforms memDev 0 .mem64 24 0x1200000000 0x0c :=
    { idx_lt := by norm_num
      flagBits_le := by decide
      log_lt := by decide
      addr_lt := by norm_num [BarKind.width]
      aligned := by norm_num
      flags_lt := by decide
      flags_ok := ⟨rfl, rfl, rfl⟩
      low := hlow
      high := fun _ => ⟨by norm_num, hhigh⟩ }
  exact (mapPciBar_iff (fun r => some r.addr) 0 ⟨memDev, []⟩ .mem64 24 0x1200000000 0x0c
    hconforms).mpr (by simp)

/-- A device with four bytes of I/O space at the address 4. -/
def ioDev : PciDev where
  cfg := fun off => if off = 0x10 then 0x05 else 0
  latch := fun reg _ w => if reg = 0x10 then (w &&& 0xfffffffc) ||| 0x01 else w

/-- The four bytes are not what the function attaches. -/
theorem mapPciBar_ioDev : ¬ ∀ (rm : Rm) (idx : ℕ) (board : Board) (kind : BarKind) (k a : ℕ)
    (flags : Word), Conforms board.dev idx kind k a flags →
      MapsRegion rm idx board ⟨a, (2 ^ k + 4095) / 4096 * 4096⟩ := by
  intro hall
  have hlow : Wired ioDev (barReg 0) ((sizeMask 2).setWidth 32) (lsb 4 ||| 0x01) :=
    ⟨by decide, fun _ _ => rfl⟩
  have hconforms : Conforms ioDev 0 .io 2 4 0x01 :=
    { idx_lt := by norm_num
      flagBits_le := by decide
      log_lt := by decide
      addr_lt := by norm_num [BarKind.width]
      aligned := by norm_num
      flags_lt := by decide
      flags_ok := ⟨rfl, rfl⟩
      low := hlow
      high := fun hk => by cases hk }
  exact not_mapsRegion_of_ioBit hconforms (by decide)
    (hall (fun r => some r.addr) 0 ⟨ioDev, []⟩ .io 2 4 0x01 hconforms)

end L4Rdma.Device
