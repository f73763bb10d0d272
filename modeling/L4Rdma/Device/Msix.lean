import L4Rdma.Device.Bar

/-!
# The MSI-X table of a PCI device

`setup_msix` of `server/src/device.cc` finds the table of interrupt messages: the low three bits of a
register of the capability tell the base address register, and the others the offset of the table in its
region. `create_msix_entry` of `server/src/interrupt.cc` writes the message of a vector to its entry, four
words of which the device reads each in little-endian order.

Two things go wrong. The offset loses its upper 16 bits, so that the message of a table that is further
up is written before the table. And the words are written with swapped bytes, as if the table belonged to
the rest of the device. `setsEntry_iff` says for which messages and tables the entry is what it is to be.
-/

namespace L4Rdma.Device

open Lib

/-! ## `setup_msix` -/

/-- The device after a 16-bit write. -/
def PciDev.write16 (dev : PciDev) (reg : ℕ) (value : Word) : PciDev :=
  let latched := dev.latch reg (cfgRead16 dev.cfg reg) value
  { dev with cfg := fun off =>
      if reg ≤ off ∧ off < reg + 2 then latched.extractLsb' (8 * (off - reg)) 8 else dev.cfg off }

/-- What `setup_msix` finds out: `table_offset`, `bir` and `table_size`. -/
structure MsixTable where
  table_offset : Word
  bir : Word
  table_size : Word
  deriving DecidableEq, Repr

/-- `Device::setup_msix`: its result, and what the variables that are passed to it contain then. -/
def setupMsix (fuel : ℕ) (t : MsixTable) : Exec PciDev (ℕ × MsixTable) := do
  let msix_cap ← getPciCap 0x11 fuel
  if msix_cap = 0 then return (1, t)
  -- Set the enable bit in the control register, and clear the mask of all vectors.
  let dev ← get
  let msix_ctrl := cfgRead16 dev.cfg (msix_cap + 0x2).toNat
  let msix_ctrl := msix_ctrl ||| 0x8000
  let msix_ctrl := msix_ctrl &&& 0xffffbfff
  modify fun dev => dev.write16 (msix_cap + 0x2).toNat msix_ctrl
  let dev ← get
  let table_pos := cfgRead32 dev.cfg (msix_cap + 0x4).toNat
  let t : MsixTable := {
    table_offset := table_pos &&& 0xfff8
    bir := table_pos &&& 0x7
    table_size := msix_ctrl &&& 0x7ff }
  if t.table_size = 0 then return (1, t)
  return (0, t)

/-- The address of the table that `main` computes. `bar` is what `map_pci_bar` returns for a register. -/
def msixTable (bar : ℕ → ℕ) (t : MsixTable) : ℕ :=
  let bar0 := bar 0
  let table_bar := if t.bir = 0 then bar0 else bar t.bir.toNat
  table_bar + t.table_offset.toNat

/-! ## `create_msix_entry` -/

/-- `l4_icu_msi_info_t`. -/
structure MsiInfo where
  msi_addr : BitVec 64
  msi_data : Word
  deriving DecidableEq, Repr

/-- `Interrupt::create_msix_entry`. -/
def createMsixEntry (irq_num : Word) (msix_table : ℕ) (info : MsiInfo) : Exec Bytes Unit := do
  -- Pointers to words.
  let entry := msix_table + 4 * (irq_num * 4).toNat
  modify fun mem => store32 mem entry (iowrite32be (info.msi_addr.setWidth 32 &&& 0xfffffffc))
  modify fun mem => store32 mem (entry + 4 * 1) (iowrite32be ((info.msi_addr >>> 32).setWidth 32))
  modify fun mem => store32 mem (entry + 4 * 2) (iowrite32be info.msi_data)
  modify fun mem => store32 mem (entry + 4 * 3) (iowrite32be 0)

/-! ## The table as the device reads it -/

/-- An entry of the table. -/
@[ext] structure MsixEntry where
  addr_low : Word
  addr_high : Word
  data : Word
  control : Word

/-- The entry that the device reads. -/
def entryAt (mem : Bytes) (table i : ℕ) : MsixEntry where
  addr_low := load32 mem (table + 16 * i)
  addr_high := load32 mem (table + 16 * i + 4)
  data := load32 mem (table + 16 * i + 8)
  control := load32 mem (table + 16 * i + 12)

/-- The offset of the table: the register with its low three bits cleared. -/
def tableOffset (table_pos : Word) : ℕ := (table_pos &&& ~~~7).toNat

/-- The place of the table, in the region of the base address register that the low three bits name. -/
def tableAddr (bar : ℕ → ℕ) (table_pos : Word) : ℕ :=
  bar (table_pos.toNat % 8) + tableOffset table_pos

/-- The entry has the message, and is not masked. -/
structure MsixEntry.Delivers (entry : MsixEntry) (info : MsiInfo) : Prop where
  addr_low : entry.addr_low = info.msi_addr.setWidth 32 &&& ~~~3
  addr_high : entry.addr_high = (info.msi_addr >>> 32).setWidth 32
  data : entry.data = info.msi_data
  unmasked : entry.control.getLsbD 0 = false

/-- `createMsixEntry` sets the entry of its vector, and leaves the other entries of the table at that
address. -/
def SetsEntry (table : ℕ) (table_size irq_num : Word) (msix_table : ℕ) (info : MsiInfo) (mem : Bytes) :
    Prop :=
  ∃ mem', createMsixEntry irq_num msix_table info mem = .ok () mem' ∧
    (entryAt mem' table irq_num.toNat).Delivers info ∧
    ∀ j ≤ table_size.toNat, j ≠ irq_num.toNat → entryAt mem' table j = entryAt mem table j

/-- A message that is the same with the bytes of its words swapped. -/
structure MsiInfo.Symmetric (info : MsiInfo) : Prop where
  addr_low : swapEndian (info.msi_addr.setWidth 32 &&& ~~~3) = info.msi_addr.setWidth 32 &&& ~~~3
  addr_high : swapEndian ((info.msi_addr >>> 32).setWidth 32) = (info.msi_addr >>> 32).setWidth 32
  data : swapEndian info.msi_data = info.msi_data

/-! ## What the functions do -/

variable {dev dev' : PciDev} {fuel r : ℕ} {t t' : MsixTable} {cap irq_num : Word} {info : MsiInfo}
  {mem mem' : Bytes} {table : ℕ}

/-- A 16-bit write leaves a register that does not overlap with it. -/
theorem cfgRead32_write16_of_apart (dev : PciDev) {reg reg' : ℕ} (value : Word)
    (h : reg + 2 ≤ reg' ∨ reg' + 4 ≤ reg) :
    cfgRead32 (dev.write16 reg value).cfg reg' = cfgRead32 dev.cfg reg' := by
  have hout : ∀ i < 4, ¬ (reg ≤ reg' + i ∧ reg' + i < reg + 2) := fun i hi => by omega
  have hzero : ¬ (reg ≤ reg' ∧ reg' < reg + 2) := hout 0 (by norm_num)
  unfold cfgRead32 PciDev.write16
  dsimp only
  rw [if_neg (hout 3 (by norm_num)), if_neg (hout 2 (by norm_num)), if_neg (hout 1 (by norm_num)),
    if_neg hzero]

/-- A capability that has been found is in the first 256 bytes, at a multiple of 4. -/
theorem getPciCap_mem_capPlaces {target_cap_id : BitVec 8}
    (hcap : getPciCap target_cap_id fuel dev = .ok cap dev) (hne : cap ≠ 0) : cap ∈ capPlaces := by
  by_cases hlist : HasCapList dev.cfg
  · rw [getPciCap_of_hasCapList hlist] at hcap
    cases hwalk : walk (nextCap dev.cfg) (IsLast dev.cfg target_cap_id) fuel (capPtr dev.cfg 0) with
    | none =>
      rw [hwalk] at hcap
      cases hcap
    | some p =>
      rw [hwalk] at hcap
      injection hcap with hp
      rw [← hp]
      exact walk_mem (P := (· ∈ capPlaces)) (nextCap_mem_capPlaces dev.cfg)
        (capPtr_mem_capPlaces dev.cfg 0) hwalk
  · rw [getPciCap_of_not_hasCapList hlist] at hcap
    injection hcap with hzero
    exact absurd hzero.symm hne

/-- The two registers of a capability do not overlap. -/
theorem capPlaces_apart (hcap : cap ∈ capPlaces) : (cap + 0x2).toNat + 2 ≤ (cap + 0x4).toNat := by
  obtain ⟨i, hi, rfl⟩ := Finset.mem_image.mp hcap
  have hlt : i < 64 := Finset.mem_range.mp hi
  have htwo : (0x2 : Word).toNat = 2 := rfl
  have hfour : (0x4 : Word).toNat = 4 := rfl
  rw [BitVec.toNat_add, BitVec.toNat_add, BitVec.toNat_ofNat, htwo, hfour]
  omega

/-- What `setupMsix` finds out when there is a capability. -/
theorem setupMsix_ok (hcap : getPciCap 0x11 fuel dev = .ok cap dev) (hne : cap ≠ 0)
    (hsetup : setupMsix fuel t dev = .ok (r, t') dev') :
    t'.table_offset = cfgRead32 dev.cfg (cap + 0x4).toNat &&& 0xfff8 ∧
      t'.bir = cfgRead32 dev.cfg (cap + 0x4).toNat &&& 0x7 ∧ t'.table_size.toNat ≤ 2047 := by
  let msix_ctrl : Word := (cfgRead16 dev.cfg (cap + 0x2).toNat ||| 0x8000) &&& 0xffffbfff
  let dev₁ := dev.write16 (cap + 0x2).toNat msix_ctrl
  let pos := cfgRead32 dev₁.cfg (cap + 0x4).toNat
  have hfar := capPlaces_apart (getPciCap_mem_capPlaces hcap hne)
  have hpos : pos = cfgRead32 dev.cfg (cap + 0x4).toNat := cfgRead32_write16_of_apart dev _ (.inl hfar)
  have hrun : setupMsix fuel t dev =
      if msix_ctrl &&& 0x7ff = 0 then .ok (1, ⟨pos &&& 0xfff8, pos &&& 0x7, msix_ctrl &&& 0x7ff⟩) dev₁
      else .ok (0, ⟨pos &&& 0xfff8, pos &&& 0x7, msix_ctrl &&& 0x7ff⟩) dev₁ := by
    unfold setupMsix
    rw [bind_of_ok hcap, if_neg hne, get_bind, modify_bind, get_bind]
    split_ifs <;> rfl
  have ht : t' = ⟨pos &&& 0xfff8, pos &&& 0x7, msix_ctrl &&& 0x7ff⟩ := by
    rw [hrun] at hsetup
    split_ifs at hsetup
    · injection hsetup with hret
      exact (Prod.mk.inj hret).2.symm
    · injection hsetup with hret
      exact (Prod.mk.inj hret).2.symm
  rw [ht, ← hpos]
  refine ⟨rfl, rfl, ?_⟩
  show (msix_ctrl &&& 0x7ff).toNat ≤ 2047
  rw [BitVec.toNat_and]
  exact Nat.and_le_right

/-! ## The entry -/

/-- The words that `createMsixEntry` leaves in its entry. -/
theorem createMsixEntry_ok (hirq : irq_num.toNat ≤ 2047) (msix_table : ℕ) (info : MsiInfo) (mem : Bytes) :
    ∃ mem', createMsixEntry irq_num msix_table info mem = .ok () mem' ∧
      entryAt mem' msix_table irq_num.toNat = {
        addr_low := iowrite32be (info.msi_addr.setWidth 32 &&& 0xfffffffc)
        addr_high := iowrite32be ((info.msi_addr >>> 32).setWidth 32)
        data := iowrite32be info.msi_data
        control := 0 } ∧
      ∀ table j, msix_table + 16 * irq_num.toNat + 16 ≤ table + 16 * j ∨
        table + 16 * j + 16 ≤ msix_table + 16 * irq_num.toNat →
          entryAt mem' table j = entryAt mem table j := by
  have hentry : msix_table + 4 * (irq_num * 4).toNat = msix_table + 16 * irq_num.toNat := by
    have hfour : (4 : Word).toNat = 4 := rfl
    rw [BitVec.toNat_mul, hfour]
    omega
  unfold createMsixEntry entryAt
  simp only [hentry]
  generalize msix_table + 16 * irq_num.toNat = entry
  refine ⟨_, rfl, MsixEntry.ext ?_ ?_ ?_ ?_, fun table j hapart => MsixEntry.ext ?_ ?_ ?_ ?_⟩
  · exact (load32_store32_of_apart (by omega)).trans ((load32_store32_of_apart (by omega)).trans
      ((load32_store32_of_apart (by omega)).trans (load32_store32_same _ _ _)))
  · exact (load32_store32_of_apart (by omega)).trans ((load32_store32_of_apart (by omega)).trans
      (load32_store32_same _ _ _))
  · exact (load32_store32_of_apart (by omega)).trans (load32_store32_same _ _ _)
  · exact load32_store32_same _ _ _
  all_goals
    exact (load32_store32_of_apart (by omega)).trans ((load32_store32_of_apart (by omega)).trans
      ((load32_store32_of_apart (by omega)).trans (load32_store32_of_apart (by omega))))

/-- The offset that `setup_msix` takes from the register: the lowest 16 bits of the real one. -/
theorem toNat_and_fff8 (table_pos : Word) :
    (table_pos &&& 0xfff8).toNat = tableOffset table_pos % 2 ^ 16 := by
  have hmask : table_pos &&& 0xfff8 = (table_pos &&& ~~~7) &&& 0xffff := by
    rw [BitVec.and_assoc]
    rfl
  rw [hmask, BitVec.toNat_and]
  exact Nat.and_two_pow_sub_one_eq_mod _ 16

/-- The table that `main` computes is in the region of the register that the low bits name. -/
theorem msixTable_eq (bar : ℕ → ℕ) {table_pos : Word} (hoffset : t.table_offset = table_pos &&& 0xfff8)
    (hbir : t.bir = table_pos &&& 0x7) :
    msixTable bar t = bar (table_pos.toNat % 8) + tableOffset table_pos % 2 ^ 16 := by
  have hlow : t.bir.toNat = table_pos.toNat % 8 := by
    rw [hbir, BitVec.toNat_and]
    exact Nat.and_two_pow_sub_one_eq_mod _ 3
  have hbar : (if t.bir = 0 then bar 0 else bar t.bir.toNat) = bar t.bir.toNat := by
    split_ifs with hzero
    · rw [hzero]
      rfl
    · rfl
  unfold msixTable
  rw [← hlow, ← toNat_and_fff8, ← hoffset]
  exact congrArg (· + t.table_offset.toNat) hbar

/-- In a table whose offset has 16 bits the entry is set when the message is symmetric. -/
theorem setsEntry_near (bar : ℕ → ℕ) {table_pos table_size : Word} (hirq : irq_num.toNat ≤ 2047)
    (hoffset : t.table_offset = table_pos &&& 0xfff8) (hbir : t.bir = table_pos &&& 0x7)
    (hnear : tableOffset table_pos < 2 ^ 16) (info : MsiInfo) (mem : Bytes) :
    SetsEntry (tableAddr bar table_pos) table_size irq_num (msixTable bar t) info mem ↔
      info.Symmetric := by
  have htable : msixTable bar t = tableAddr bar table_pos := by
    rw [msixTable_eq bar hoffset hbir, Nat.mod_eq_of_lt hnear]
    rfl
  obtain ⟨mem', hcreate, hentry, hothers⟩ := createMsixEntry_ok hirq (msixTable bar t) info mem
  rw [htable] at hentry hothers
  have hmask : (0xfffffffc : Word) = ~~~3 := by decide
  unfold SetsEntry
  constructor
  · rintro ⟨mem'', hcreate', hdelivers, -⟩
    rw [hcreate] at hcreate'
    injection hcreate' with _ hmem
    rw [← hmem, hentry, hmask] at hdelivers
    exact ⟨hdelivers.addr_low, hdelivers.addr_high, hdelivers.data⟩
  · intro hsym
    refine ⟨mem', hcreate, ?_, fun j _ hj => hothers _ j (by omega)⟩
    rw [hentry, hmask]
    exact ⟨hsym.addr_low, hsym.addr_high, hsym.data, (by decide : (0 : Word).getLsbD 0 = false)⟩

/-- In a table that is further up nothing is written. -/
theorem setsEntry_far (bar : ℕ → ℕ) {table_pos table_size : Word} (hirq : irq_num.toNat ≤ 2047)
    (hoffset : t.table_offset = table_pos &&& 0xfff8) (hbir : t.bir = table_pos &&& 0x7)
    (hfar : 2 ^ 16 ≤ tableOffset table_pos) (info : MsiInfo) (mem : Bytes) :
    SetsEntry (tableAddr bar table_pos) table_size irq_num (msixTable bar t) info mem ↔
      (entryAt mem (tableAddr bar table_pos) irq_num.toNat).Delivers info := by
  obtain ⟨mem', hcreate, -, hothers⟩ := createMsixEntry_ok hirq (msixTable bar t) info mem
  have hbefore : msixTable bar t + 2 ^ 16 ≤ tableAddr bar table_pos := by
    have hmod : tableOffset table_pos % 2 ^ 16 + 2 ^ 16 ≤ tableOffset table_pos := by omega
    rw [msixTable_eq bar hoffset hbir, tableAddr, Nat.add_assoc]
    exact Nat.add_le_add_left hmod _
  have hsame : ∀ j, entryAt mem' (tableAddr bar table_pos) j = entryAt mem (tableAddr bar table_pos) j :=
    fun j => hothers _ j (.inl (by omega))
  unfold SetsEntry
  constructor
  · rintro ⟨mem'', hcreate', hdelivers, -⟩
    rw [hcreate] at hcreate'
    injection hcreate' with _ hmem
    rw [← hmem, hsame] at hdelivers
    exact hdelivers
  · intro hdelivers
    refine ⟨mem', hcreate, ?_, fun j _ _ => hsame j⟩
    rw [hsame]
    exact hdelivers

/-- For every device with the capability, and every vector that its table has: after `setup_msix` and
`create_msix_entry` the entry has the message, and the other entries are as before, exactly when the offset
of the table has 16 bits and the message is symmetric, or the table is further up and its entry has had
the message already. -/
theorem setsEntry_iff (hcap : getPciCap 0x11 fuel dev = .ok cap dev) (hne : cap ≠ 0)
    (hsetup : setupMsix fuel t dev = .ok (r, t') dev') (hirq : irq_num.toNat ≤ t'.table_size.toNat)
    (bar : ℕ → ℕ) (info : MsiInfo) (mem : Bytes) :
    let table_pos := cfgRead32 dev.cfg (cap + 0x4).toNat
    SetsEntry (tableAddr bar table_pos) t'.table_size irq_num (msixTable bar t') info mem ↔
      tableOffset table_pos < 2 ^ 16 ∧ info.Symmetric ∨
      2 ^ 16 ≤ tableOffset table_pos ∧
        (entryAt mem (tableAddr bar table_pos) irq_num.toNat).Delivers info := by
  intro table_pos
  obtain ⟨hoffset, hbir, hsize⟩ := setupMsix_ok hcap hne hsetup
  have hlt : irq_num.toNat ≤ 2047 := Nat.le_trans hirq hsize
  rcases Nat.lt_or_ge (tableOffset table_pos) (2 ^ 16) with hnear | hfar
  · rw [setsEntry_near bar hlt hoffset hbir hnear]
    constructor
    · exact fun hsym => .inl ⟨hnear, hsym⟩
    · rintro (⟨-, hsym⟩ | ⟨hfar, -⟩)
      · exact hsym
      · exact absurd hnear (Nat.not_lt_of_le hfar)
  · rw [setsEntry_far bar hlt hoffset hbir hfar]
    constructor
    · exact fun hdelivers => .inr ⟨hfar, hdelivers⟩
    · rintro (⟨hnear, -⟩ | ⟨-, hdelivers⟩)
      · exact absurd hnear (Nat.not_lt_of_le hfar)
      · exact hdelivers

/-- A device with the capability at 0x40, whose table has 16 entries at offset 0x2000 of the region of
register 0. -/
def msixDev : PciDev where
  cfg off :=
    if off = 0x06 then 0x10 else if off = 0x34 then 0x40 else if off = 0x40 then 0x11
    else if off = 0x42 then 0x0f else if off = 0x45 then 0x20 else 0
  latch _ _ w := w

/-- The message of an interrupt on a PC. -/
def pcMessage : MsiInfo := ⟨0xfee00000, 0x41⟩

/-- This device has the capability, and its table is set up. -/
theorem msixDev_setup : getPciCap 0x11 1 msixDev = .ok 0x40 msixDev ∧
    ∃ dev', setupMsix 1 ⟨0, 0, 0⟩ msixDev = .ok (0, ⟨0x2000, 0, 0xf⟩) dev' :=
  ⟨rfl, _, rfl⟩

/-- Where its BAR 0 is mapped. -/
def msixBar (_ : ℕ) : ℕ := 0x1000000

/-- The entry of vector 9 of that device, on zeroed memory. -/
theorem msixDev_setsEntry_iff :
    SetsEntry (tableAddr msixBar 0x2000) 0xf 9 (msixTable msixBar ⟨0x2000, 0, 0xf⟩) pcMessage (fun _ => 0) ↔
      tableOffset 0x2000 < 2 ^ 16 ∧ pcMessage.Symmetric ∨
      2 ^ 16 ≤ tableOffset 0x2000 ∧ (entryAt (fun _ => 0) (tableAddr msixBar 0x2000) 9).Delivers pcMessage := by
  obtain ⟨hcap, dev', hsetup⟩ := msixDev_setup
  have hirq : (9 : Word).toNat ≤ (0xf : Word).toNat := by decide
  have hpos : cfgRead32 msixDev.cfg ((0x40 : Word) + 0x4).toNat = 0x2000 := by decide
  have hiff := setsEntry_iff hcap (by decide) hsetup hirq msixBar pcMessage fun _ => 0
  dsimp only at hiff
  rw [hpos] at hiff
  exact hiff

/-- It does not get the message of an interrupt on a PC. -/
theorem msixDev_not_setsEntry :
    (∃ dev', setupMsix 1 ⟨0, 0, 0⟩ msixDev = .ok (0, ⟨0x2000, 0, 0xf⟩) dev') ∧
      cfgRead32 msixDev.cfg 0x44 = 0x2000 ∧
      ¬ SetsEntry (tableAddr msixBar 0x2000) 0xf 9 (msixTable msixBar ⟨0x2000, 0, 0xf⟩) pcMessage
        fun _ => 0 := by
  refine ⟨msixDev_setup.2, by decide, fun hsets => ?_⟩
  have hirq : (9 : Word).toNat ≤ 2047 := by decide
  have hnear : tableOffset 0x2000 < 2 ^ 16 := by decide
  have hsym := (setsEntry_near msixBar hirq (by decide) (by decide) hnear _ _).mp hsets
  have hdata : swapEndian 0x41 = 0x41 := hsym.data
  exact absurd hdata (by decide)

end L4Rdma.Device
