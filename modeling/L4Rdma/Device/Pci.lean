import L4Rdma.Lib.Bytes
import L4Rdma.Lib.Walk
import L4Rdma.Word

/-!
# The configuration space of a PCI device, and its list of capabilities

`get_pci_cap` of `server/src/device.cc` looks for a capability in the list that the device keeps in
its configuration space. The list is a chain of pointers that starts at offset 0x34; its end is the
pointer 0. The function follows it (`Lib.walk`) to the first pointer that is 0 or belongs to a
capability with the wanted id.

The end marker and the answer for a capability that is missing are the same number, so what the
device has at offset 0, where the loop reads an id once more after the last capability, makes no
difference (`getPciCap_finds`). Nothing makes a device end its list. A list that leads back into
itself without the wanted id keeps the function busy for ever, and it terminates exactly when the
list comes to its end or to the id (`getPciCap_terminates_iff`), which then takes it 64 rounds at
most (`getPciCap_terminates_in_64`).
-/

namespace L4Rdma.Device

open Lib

/-! ## The configuration space -/

/-- The contents of a configuration space: a byte at every offset. -/
abbrev CfgSpace : Type := ℕ → BitVec 8

/-- `L4vbus::Pci_dev`. -/
structure PciDev where
  cfg : CfgSpace
  /-- What the device makes of a 32-bit write: its offset, what was there, and what is written. -/
  latch : ℕ → Word → Word → Word

/-- `cfg_read(reg, &value, 8)`. -/
def cfgRead8 (cfg : CfgSpace) (reg : ℕ) : Word := (cfg reg).setWidth 32

/-- `cfg_read(reg, &value, 16)`. -/
def cfgRead16 (cfg : CfgSpace) (reg : ℕ) : Word := (cfg (reg + 1) ++ cfg reg).setWidth 32

/-- `cfg_read(reg, &value, 32)`. -/
def cfgRead32 (cfg : CfgSpace) (reg : ℕ) : Word :=
  cfg (reg + 3) ++ cfg (reg + 2) ++ cfg (reg + 1) ++ cfg reg

/-! ## `get_pci_cap` -/

/-- The loop of `get_pci_cap`, for at most `fuel` rounds. -/
def capLoop (target_cap_id : BitVec 8) : ℕ → Word → Exec PciDev Word
  | 0, _ => throw .diverges
  | fuel + 1, cap_ptr => do
    let dev ← get
    -- Read the capabilities pointer, and mask its lowest two bits.
    let cap_ptr := cfgRead8 dev.cfg (cap_ptr + 1).toNat &&& 0xfc
    let cap_id := cfgRead8 dev.cfg cap_ptr.toNat
    if cap_id = target_cap_id.setWidth 32 then return cap_ptr
    if cap_ptr ≠ 0 then capLoop target_cap_id fuel cap_ptr else return 0

/-- `Device::get_pci_cap`. -/
def getPciCap (target_cap_id : BitVec 8) (fuel : ℕ) : Exec PciDev Word := do
  let dev ← get
  let status := cfgRead16 dev.cfg 0x06
  -- Bit 4 tells whether there is a list.
  if status &&& 0x10 = 0 then return 0
  capLoop target_cap_id fuel (0x34 - 1)

/-! ## The list of capabilities -/

/-- The status register has the bit for a list of capabilities. -/
def HasCapList (cfg : CfgSpace) : Prop := cfgRead16 cfg 0x06 &&& 0x10 ≠ 0

/-- The pointer after the capability at `p`. -/
def nextCap (cfg : CfgSpace) (p : Word) : Word := cfgRead8 cfg (p + 1).toNat &&& 0xfc

/-- The pointer that the list has after `n` capabilities. -/
def capPtr (cfg : CfgSpace) (n : ℕ) : Word := (nextCap cfg)^[n] (nextCap cfg (0x34 - 1))

/-- The id at a pointer. -/
def capId (cfg : CfgSpace) (p : Word) : BitVec 8 := cfg p.toNat

/-- A pointer at which the loop ends. -/
def IsLast (cfg : CfgSpace) (target_cap_id : BitVec 8) (p : Word) : Prop :=
  capId cfg p = target_cap_id ∨ p = 0

/-- Whether the loop ends at a pointer can be evaluated. -/
instance (cfg : CfgSpace) (target_cap_id : BitVec 8) : DecidablePred (IsLast cfg target_cap_id) :=
  fun _ => inferInstanceAs (Decidable (_ ∨ _))

/-- The comparison of the ids is one of bytes. -/
theorem cfgRead8_eq_iff (cfg : CfgSpace) (p : Word) (target_cap_id : BitVec 8) :
    cfgRead8 cfg p.toNat = target_cap_id.setWidth 32 ↔ capId cfg p = target_cap_id := by
  unfold cfgRead8 capId
  constructor
  · intro h
    have hnat := congrArg BitVec.toNat h
    rw [BitVec.toNat_setWidth_of_le (by norm_num), BitVec.toNat_setWidth_of_le (by norm_num)] at hnat
    exact BitVec.eq_of_toNat_eq hnat
  · intro h
    rw [h]

/-- The loop is a walk along the pointers, and its result is the pointer at which it ends. -/
theorem capLoop_eq_walk (target_cap_id : BitVec 8) (fuel : ℕ) (p : Word) (dev : PciDev) :
    capLoop target_cap_id fuel p dev =
      match walk (nextCap dev.cfg) (IsLast dev.cfg target_cap_id) fuel (nextCap dev.cfg p) with
      | some cap => .ok cap dev
      | none => .error .diverges dev := by
  induction fuel generalizing p with
  | zero => rfl
  | succ fuel ih =>
    -- One round compares the id at the next pointer and then the pointer with 0.
    have hround : capLoop target_cap_id (fuel + 1) p dev =
        (if capId dev.cfg (nextCap dev.cfg p) = target_cap_id then .ok (nextCap dev.cfg p) dev
        else if nextCap dev.cfg p ≠ 0 then capLoop target_cap_id fuel (nextCap dev.cfg p) dev
        else .ok 0 dev) := by
      show (if cfgRead8 dev.cfg (nextCap dev.cfg p).toNat = target_cap_id.setWidth 32 then
        (pure (nextCap dev.cfg p) : Exec PciDev Word) else
          if nextCap dev.cfg p ≠ 0 then capLoop target_cap_id fuel (nextCap dev.cfg p)
          else pure 0) dev = _
      simp only [cfgRead8_eq_iff]
      split_ifs <;> rfl
    rw [hround, walk]
    by_cases hid : capId dev.cfg (nextCap dev.cfg p) = target_cap_id
    · -- The wanted capability.
      have hlast : IsLast dev.cfg target_cap_id (nextCap dev.cfg p) := .inl hid
      rw [if_pos hid, if_pos hlast]
    · rw [if_neg hid]
      by_cases hend : nextCap dev.cfg p = 0
      · -- The end of the list: the pointer is the answer for a capability that is missing.
        have hlast : IsLast dev.cfg target_cap_id (nextCap dev.cfg p) := .inr hend
        rw [if_neg (not_not.mpr hend), if_pos hlast, hend]
      · have hgoes : ¬ IsLast dev.cfg target_cap_id (nextCap dev.cfg p) := not_or.mpr ⟨hid, hend⟩
        rw [if_pos hend, if_neg hgoes, ih]

/-- A device without a list has no capability. -/
theorem getPciCap_of_not_hasCapList {dev : PciDev} (h : ¬ HasCapList dev.cfg)
    (target_cap_id : BitVec 8) (fuel : ℕ) : getPciCap target_cap_id fuel dev = .ok 0 dev := by
  unfold getPciCap
  rw [get_bind]
  rw [if_pos (not_not.mp h)]
  rfl

/-- With a list, the function is the walk. -/
theorem getPciCap_of_hasCapList {dev : PciDev} (h : HasCapList dev.cfg) (target_cap_id : BitVec 8)
    (fuel : ℕ) :
    getPciCap target_cap_id fuel dev =
      match walk (nextCap dev.cfg) (IsLast dev.cfg target_cap_id) fuel (capPtr dev.cfg 0) with
      | some cap => .ok cap dev
      | none => .error .diverges dev := by
  unfold getPciCap
  rw [get_bind]
  rw [if_neg h]
  exact capLoop_eq_walk target_cap_id fuel (0x34 - 1) dev

/-- It ends at the first pointer that is 0 or belongs to a capability with the wanted id. -/
theorem getPciCap_of_first {dev : PciDev} (h : HasCapList dev.cfg) {target_cap_id : BitVec 8}
    {n fuel : ℕ} (hlast : IsLast dev.cfg target_cap_id (capPtr dev.cfg n))
    (hfirst : ∀ i < n, ¬ IsLast dev.cfg target_cap_id (capPtr dev.cfg i)) (hfuel : n < fuel) :
    getPciCap target_cap_id fuel dev = .ok (capPtr dev.cfg n) dev := by
  have hwalk : walk (nextCap dev.cfg) (IsLast dev.cfg target_cap_id) fuel (capPtr dev.cfg 0) =
      some (capPtr dev.cfg n) := walk_of_first hlast hfirst hfuel
  rw [getPciCap_of_hasCapList h, hwalk]

/-- Without such a pointer it does not return. -/
theorem getPciCap_of_endless {dev : PciDev} (h : HasCapList dev.cfg) {target_cap_id : BitVec 8}
    (hgoes : ∀ n, ¬ IsLast dev.cfg target_cap_id (capPtr dev.cfg n)) (fuel : ℕ) :
    getPciCap target_cap_id fuel dev = .error .diverges dev := by
  have hwalk : walk (nextCap dev.cfg) (IsLast dev.cfg target_cap_id) fuel (capPtr dev.cfg 0) =
      none := walk_eq_none fun i _ => hgoes i
  rw [getPciCap_of_hasCapList h, hwalk]

/-! ## Termination -/

/-- The function returns when it is given enough rounds. -/
def Terminates (target_cap_id : BitVec 8) (dev : PciDev) : Prop :=
  ∃ fuel cap, getPciCap target_cap_id fuel dev = .ok cap dev

/-- `get_pci_cap` terminates exactly when there is no list, or when the list comes to its end or to
a capability with the wanted id. -/
theorem getPciCap_terminates_iff (target_cap_id : BitVec 8) (dev : PciDev) :
    Terminates target_cap_id dev ↔
      ¬ HasCapList dev.cfg ∨
        ∃ n, capId dev.cfg (capPtr dev.cfg n) = target_cap_id ∨ capPtr dev.cfg n = 0 := by
  classical
  by_cases hlist : HasCapList dev.cfg
  · constructor
    · rintro ⟨fuel, cap, hret⟩
      refine .inr (by_contra fun hnone => ?_)
      rw [getPciCap_of_endless hlist (fun n hlast => hnone ⟨n, hlast⟩)] at hret
      cases hret
    · rintro (hno | hex)
      · exact absurd hlist hno
      · exact ⟨_, _, getPciCap_of_first hlist (Nat.find_spec hex) (fun i => Nat.find_min hex)
          (Nat.lt_succ_self _)⟩
  · exact iff_of_true ⟨0, 0, getPciCap_of_not_hasCapList hlist target_cap_id 0⟩ (.inl hlist)

/-- A space whose list has one capability, with id 0, that names itself as the next. -/
def selfLoop : CfgSpace := fun off =>
  if off = 0x06 then 0x10 else if off = 0x34 ∨ off = 0x41 then 0x40 else 0

/-- This list never leaves its first capability. -/
theorem capPtr_selfLoop (n : ℕ) : capPtr selfLoop n = 0x40 := by
  unfold capPtr
  induction n with
  | zero => decide
  | succ n ih =>
    rw [Function.iterate_succ_apply', ih]
    decide

/-- The search for the MSI-X capability in that list does not end. -/
theorem getPciCap_selfLoop :
    ¬ ∀ (target_cap_id : BitVec 8) (dev : PciDev), Terminates target_cap_id dev := by
  intro hall
  obtain ⟨fuel, cap, hret⟩ := hall 0x11 ⟨selfLoop, fun _ _ w => w⟩
  have hlist : HasCapList selfLoop := by
    unfold HasCapList
    decide
  have hgoes : ∀ n, ¬ IsLast selfLoop 0x11 (capPtr selfLoop n) := by
    intro n
    rw [capPtr_selfLoop]
    decide
  rw [@getPciCap_of_endless ⟨selfLoop, fun _ _ w => w⟩ hlist 0x11 hgoes fuel] at hret
  cases hret

/-- The locations that the two clear bits leave to a pointer. -/
def capPlaces : Finset Word := (Finset.range 64).image fun i => BitVec.ofNat 32 (4 * i)

/-- The pointer after a capability is at one of these locations. -/
theorem nextCap_mem_capPlaces (cfg : CfgSpace) (p : Word) : nextCap cfg p ∈ capPlaces := by
  have hclear : ∀ b : BitVec 8, BitVec.ofNat 32 (4 * (b.toNat / 4)) = b.setWidth 32 &&& (0xfc : Word) := by
    decide +kernel
  have hbyte : ∀ b : BitVec 8, b.setWidth 32 &&& (0xfc : Word) ∈ capPlaces := fun b =>
    Finset.mem_image.mpr ⟨b.toNat / 4, Finset.mem_range.mpr (by omega), hclear b⟩
  exact hbyte _

/-- So are all pointers of a list. -/
theorem capPtr_mem_capPlaces (cfg : CfgSpace) (n : ℕ) : capPtr cfg n ∈ capPlaces := by
  cases n with
  | zero => exact nextCap_mem_capPlaces cfg _
  | succ n =>
    unfold capPtr
    rw [Function.iterate_succ_apply']
    exact nextCap_mem_capPlaces cfg _

/-- When the function terminates it does so within 64 rounds, as many as there are locations. -/
theorem getPciCap_terminates_in_64 {target_cap_id : BitVec 8} {dev : PciDev}
    (h : Terminates target_cap_id dev) :
    ∃ cap, getPciCap target_cap_id 64 dev = .ok cap dev := by
  classical
  by_cases hlist : HasCapList dev.cfg
  · have hex : ∃ n, IsLast dev.cfg target_cap_id (capPtr dev.cfg n) := by
      by_contra hnone
      obtain ⟨fuel, cap, hret⟩ := h
      rw [getPciCap_of_endless hlist (fun n hlast => hnone ⟨n, hlast⟩)] at hret
      cases hret
    have hcard : capPlaces.card ≤ 64 := by
      calc capPlaces.card ≤ (Finset.range 64).card := Finset.card_image_le
        _ = 64 := Finset.card_range 64
    obtain ⟨n, hn, hlast⟩ := exists_stop_lt (capPtr_mem_capPlaces dev.cfg) hex
    have hle : Nat.find hex ≤ n := Nat.find_min' hex hlast
    exact ⟨_, getPciCap_of_first hlist (Nat.find_spec hex) (fun i => Nat.find_min hex) (by omega)⟩
  · exact ⟨0, getPciCap_of_not_hasCapList hlist target_cap_id 64⟩

/-! ## The result -/

/-- Capability `n` of the list: no pointer up to its own is 0. -/
def IsCap (cfg : CfgSpace) (n : ℕ) : Prop := ∀ i ≤ n, capPtr cfg i ≠ 0

/-- In a list that comes to its end, the function finds the first capability with the wanted id, and
returns 0 exactly when there is no list or no such capability in it. -/
theorem getPciCap_finds {target_cap_id : BitVec 8} {dev : PciDev}
    (hend : ∃ n, capPtr dev.cfg n = 0) :
    ∃ cap, (∃ n, ∀ fuel > n, getPciCap target_cap_id fuel dev = .ok cap dev) ∧
      (∀ n, HasCapList dev.cfg → IsCap dev.cfg n → capId dev.cfg (capPtr dev.cfg n) = target_cap_id →
        (∀ i < n, capId dev.cfg (capPtr dev.cfg i) ≠ target_cap_id) → cap = capPtr dev.cfg n) ∧
      (cap = 0 ↔ ¬ HasCapList dev.cfg ∨
        ∀ n, IsCap dev.cfg n → capId dev.cfg (capPtr dev.cfg n) ≠ target_cap_id) := by
  classical
  by_cases hlist : HasCapList dev.cfg
  · have hex : ∃ n, IsLast dev.cfg target_cap_id (capPtr dev.cfg n) :=
      hend.imp fun n hn => .inr hn
    -- Pointer `m` is the one at which the function ends.
    obtain ⟨m, hlast, hfirst⟩ : ∃ m, IsLast dev.cfg target_cap_id (capPtr dev.cfg m) ∧
        ∀ i < m, ¬ IsLast dev.cfg target_cap_id (capPtr dev.cfg i) :=
      ⟨Nat.find hex, Nat.find_spec hex, fun i => Nat.find_min hex⟩
    refine ⟨_, ⟨m, fun fuel => getPciCap_of_first hlist hlast hfirst⟩, ?_, ?_⟩
    · -- The first capability with the wanted id is at pointer `m`.
      intro n _ hcap hid hbefore
      have hmn : m = n := by
        rcases Nat.lt_trichotomy m n with hlt | heq | hgt
        · -- A pointer before capability `n` is neither 0 nor of the wanted id.
          rcases hlast with hid' | hzero
          · exact absurd hid' (hbefore m hlt)
          · exact absurd hzero (hcap m hlt.le)
        · exact heq
        · exact absurd (.inl hid) (hfirst n hgt)
      rw [hmn]
    · constructor
      · -- If the function ends at 0, it has not met the id, and all capabilities come before that pointer.
        intro hzero
        refine .inr fun n hcap hid => ?_
        rcases Nat.lt_or_ge n m with hlt | hge
        · exact hfirst n hlt (.inl hid)
        · exact hcap m hge hzero
      · rintro (hno | hnone)
        · exact absurd hlist hno
        · rcases hlast with hid | hzero
          · -- If no capability has the id, the loop cannot have ended at one.
            by_contra hne
            refine hnone m (fun i hi hzero => ?_) hid
            rcases Nat.lt_or_eq_of_le hi with hlt | rfl
            · exact hfirst i hlt (.inr hzero)
            · exact hne hzero
          · exact hzero
  · exact ⟨0, ⟨0, fun fuel _ => getPciCap_of_not_hasCapList hlist target_cap_id fuel⟩,
      fun n h => absurd h hlist, iff_of_true rfl (.inl hlist)⟩

/-- A device with power management, MSI, MSI-X and vendor specific capabilities, from offset 0x40 on.
The first pointer has a bit that is masked. -/
def fourCaps : PciDev where
  cfg off :=
    if off = 0x00 then 0xb3 else if off = 0x06 then 0x10 else if off = 0x34 then 0x41
    else if off = 0x40 then 0x01 else if off = 0x41 then 0x50
    else if off = 0x50 then 0x05 else if off = 0x51 then 0x60
    else if off = 0x60 then 0x11 else if off = 0x61 then 0x70
    else if off = 0x70 then 0x09 else 0
  latch _ _ w := w

/-- The list of this device has no fifth capability. -/
theorem fourCaps_lt {n : ℕ} (h : IsCap fourCaps.cfg n) : n < 4 := by
  have hend : capPtr fourCaps.cfg 4 = 0 := by decide
  by_contra hge
  exact h 4 (Nat.not_lt.mp hge) hend

/-- The MSI-X capability is the third one, and there is no PCI Express capability. -/
theorem getPciCap_finds_fourCaps :
    (∃ n, ∀ fuel > n, getPciCap 0x11 fuel fourCaps = .ok 0x60 fourCaps) ∧
      ∃ n, ∀ fuel > n, getPciCap 0x10 fuel fourCaps = .ok 0 fourCaps := by
  have hlist : HasCapList fourCaps.cfg := by
    unfold HasCapList
    decide
  have hend : ∃ n, capPtr fourCaps.cfg n = 0 := ⟨4, by decide⟩
  constructor
  · -- The two capabilities before it have other ids.
    have hthird : IsCap fourCaps.cfg 2 := by
      unfold IsCap
      decide
    obtain ⟨cap, hret, hfound, -⟩ := @getPciCap_finds 0x11 fourCaps hend
    have hcap : cap = 0x60 := hfound 2 hlist hthird (by decide) (by decide)
    exact hcap ▸ hret
  · have hnone : ∀ n < 4, capId fourCaps.cfg (capPtr fourCaps.cfg n) ≠ 0x10 := by decide
    obtain ⟨cap, hret, -, hzero⟩ := @getPciCap_finds 0x10 fourCaps hend
    have hcap : cap = 0 := hzero.mpr (.inr fun n hn => hnone n (fourCaps_lt hn))
    exact hcap ▸ hret

end L4Rdma.Device
