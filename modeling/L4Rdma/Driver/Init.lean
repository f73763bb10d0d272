import L4Rdma.Cmd.Call
import L4Rdma.Lib.Run

/-!
# The command queue at the start

`main` sets up the command queue with 32 slots in one page, and `init_hca` (`server/src/driver.cc`)
reads from the device how many slots it expects, and how many bytes it expects between them. It
only checks that these numbers are not too large. So the driver and the device use the same slots
exactly when the device expects 32 of them with 64 bytes each (`sharesSlots_iff`).
-/

namespace L4Rdma.Driver

open Lib Device

/-! ## The functions of the driver -/

/-- The number of bytes of a command queue entry, `sizeof(CQE)`: 16 registers. -/
abbrev CQE_BYTES : ℕ := 16 * 4

/-- What the device says about the command queue in `cmdq_addr_lsb_info`. -/
structure CmdqInfo where
  log_size : ℕ
  log_stride : ℕ
  deriving DecidableEq

/-- The part of `init_hca` that looks at the command queue. Its `throw;` has nothing to throw again
and ends the program. -/
def readCmdqInfo {σ : Type} (cmdq_addr_lsb_info : Word) : Exec σ CmdqInfo := do
  let info := ioread32be cmdq_addr_lsb_info &&& 0xff
  let log_size := (info >>> 4 &&& 0xf).toNat
  let log_stride := (info &&& 0xf).toNat
  if 1 <<< log_size > 32 then throw (.thrown "Commands in queue")
  if log_size + log_stride > 12 then throw (.thrown "cq size overflow")
  return ⟨log_size, log_stride⟩

/-- The command queue as `main` sets it up in a page. -/
def mainQueue (dma_mem : MEM.DmaMem) : Q.Queue where
  start := dma_mem.virt
  size := 32
  head := 0
  dma_mem := dma_mem

/-- Where the driver writes the entry of a slot, `&((CQE*)cq.start)[slot]`, from the start of the
queue. -/
def cqeOffset (slot : ℕ) : ℕ := slot * CQE_BYTES

/-! ## Runs -/

/-- What happens to the command arguments: a command is created in a slot, or something that leaves
the ring as it is. The functions that ring the doorbell, wait for the device and take the output, and
the device itself, are of the second kind. -/
inductive Commanded : CMD.CMD_Args → Option ℕ → CMD.CMD_Args → Prop
  | create {opcode op_mod payload payload_length output_length slot a a'} :
    CMD.createCqe opcode op_mod payload payload_length output_length a = .ok slot a' →
      Commanded a (some slot) a'
  | other {a a'} : a'.cq = a.cq → Commanded a none a'

/-- The slots of the commands of a run. -/
def slots (steps : List (CMD.CMD_Args × Option ℕ)) : List ℕ := steps.filterMap Prod.snd

/-- The device knows the slot, and looks for its entry where the driver writes it, inside of the page
of the queue. -/
structure SharesSlot (info : CmdqInfo) (slot : ℕ) : Prop where
  lt : slot < 2 ^ info.log_size
  offset : cqeOffset slot = slot * 2 ^ info.log_stride
  inside : cqeOffset slot + CQE_BYTES ≤ HCA_PAGE_SIZE

/-- The driver and the device share the slots of all commands of all runs. -/
def SharesSlots (info : CmdqInfo) (a : CMD.CMD_Args) : Prop :=
  ∀ steps a', Run Commanded a steps a' → ∀ slot ∈ slots steps, SharesSlot info slot

variable {a a' : CMD.CMD_Args} {info : CmdqInfo} {steps : List (CMD.CMD_Args × Option ℕ)}

/-- The head of the ring stays below its size, and so do the slots. -/
theorem Commanded.head_lt {slot : Option ℕ} (h : Commanded a slot a') (hsize : a.cq.size = 32)
    (hhead : a.cq.head < 32) :
    (a'.cq.size = 32 ∧ a'.cq.head < 32) ∧ ∀ s, slot = some s → s < 32 := by
  cases h with
  | create hcreate =>
    obtain ⟨rfl, hcq, -⟩ := CMD.createCqe_effect hcreate
    have hlt := Q.enqueue_head_lt (q := a.cq) (by omega)
    rw [hcq, Q.enqueue_size]
    refine ⟨⟨hsize, by omega⟩, fun s hs => ?_⟩
    cases hs
    exact hhead
  | other hcq =>
    rw [hcq]
    exact ⟨⟨hsize, hhead⟩, fun s hs => by cases hs⟩

/-- The slots of one more act. -/
theorem slots_snoc {slot : Option ℕ} :
    slots (steps ++ [(a, slot)]) = slots steps ++ slot.toList := by
  unfold slots
  rw [List.filterMap_append]
  cases slot <;> rfl

/-- The slots of a run are below 32. -/
theorem slots_lt (h : Run Commanded a steps a') (hsize : a.cq.size = 32) (hhead : a.cq.head < 32) :
    (a'.cq.size = 32 ∧ a'.cq.head < 32) ∧ ∀ slot ∈ slots steps, slot < 32 := by
  induction h with
  | nil => exact ⟨⟨hsize, hhead⟩, fun slot hs => absurd hs List.not_mem_nil⟩
  | snoc _ hR ih =>
    obtain ⟨⟨hsize', hhead'⟩, hold⟩ := ih
    obtain ⟨hring, hnew⟩ := hR.head_lt hsize' hhead'
    refine ⟨hring, fun slot hs => ?_⟩
    rw [slots_snoc, List.mem_append, Option.mem_toList] at hs
    rcases hs with hs | hs
    · exact hold slot hs
    · exact hnew slot hs

/-- Any number of commands can be created. They take the slots in turn. -/
theorem exists_run (hready : CMD.Ready a) (hsize : a.cq.size = 32) (hhead : a.cq.head = 0) (k : ℕ) :
    ∃ steps a', Run Commanded a steps a' ∧ CMD.Ready a' ∧ a'.cq.size = 32 ∧
      a'.cq.head = k % 32 ∧ slots steps = (List.range k).map (· % 32) := by
  induction k with
  | zero => exact ⟨[], a, .nil, hready, hsize, hhead, rfl⟩
  | succ k ih =>
    obtain ⟨steps, a₁, hrun, hready₁, hsize₁, hhead₁, hslots⟩ := ih
    have hfits : CMD.Fits (Buf.ofList []) 0 0 := ⟨Nat.zero_le _, Nat.le_refl 0, Nat.zero_le _⟩
    obtain ⟨mbb₁, mbb', hcreate, -, -⟩ := CMD.createCqe_ok hready₁ hfits .NOP 0
    have hnext : (Q.enqueue a₁.cq).2.head = (k + 1) % 32 := by
      rw [Q.enqueue_head (by omega) (by omega), hsize₁, hhead₁]
      omega
    refine ⟨_, _, hrun.snoc (.create hcreate), ?_, hsize₁, hnext, ?_⟩
    · exact ⟨hready₁.size_pos, hready₁.size_le, Q.enqueue_head_lt hready₁.size_pos, hready₁.imb,
        hready₁.omb, hready₁.disjoint⟩
    · rw [slots_snoc, hslots, hhead₁, List.range_succ, List.map_append]
      rfl

/-- The entry of every slot is inside of the page, whatever the device expects. -/
theorem cqe_inside {dma_mem : MEM.DmaMem} (hcq : a.cq = mainQueue dma_mem)
    (h : Run Commanded a steps a') :
    ∀ slot ∈ slots steps, cqeOffset slot + CQE_BYTES ≤ HCA_PAGE_SIZE := by
  have hsize : a.cq.size = 32 := by rw [hcq]; rfl
  have hhead : a.cq.head = 0 := by rw [hcq]; rfl
  intro slot hslot
  have hlt := (slots_lt h hsize (by omega)).2 slot hslot
  unfold cqeOffset CQE_BYTES HCA_PAGE_SIZE
  omega

/-! ## When the slots are the same -/

/-- `init_hca` accepts numbers that are not too large. -/
theorem readCmdqInfo_ok {σ : Type} {reg : Word} {s s' : σ}
    (h : readCmdqInfo reg s = .ok info s') : 2 ^ info.log_size ≤ 32 := by
  unfold readCmdqInfo at h
  simp only at h
  split_ifs at h with hlarge _ _
  · cases h
  · cases h
  · cases h
  · cases h
    rw [Nat.one_shiftLeft] at hlarge
    exact Nat.le_of_not_lt hlarge

/-- Of the numbers that `init_hca` accepts, those with which the driver and the device share the slots
of all commands are 32 slots with 64 bytes each. -/
theorem sharesSlots_iff {σ : Type} (reg : Word) (info : CmdqInfo) (s s' : σ)
    (haccept : readCmdqInfo reg s = .ok info s') (dma_mem : MEM.DmaMem) (a : CMD.CMD_Args)
    (hready : CMD.Ready a) (hcq : a.cq = mainQueue dma_mem) :
    SharesSlots info a ↔ info.log_size = 5 ∧ info.log_stride = 6 := by
  have hsize : a.cq.size = 32 := by rw [hcq]; rfl
  have hhead : a.cq.head = 0 := by rw [hcq]; rfl
  constructor
  · intro hall
    obtain ⟨steps, a', hrun, -, -, -, hslots⟩ := exists_run hready hsize hhead 32
    have hmem : ∀ slot, slot < 32 → slot ∈ slots steps := fun slot hlt => by
      rw [hslots, List.mem_map]
      exact ⟨slot, List.mem_range.mpr hlt, Nat.mod_eq_of_lt hlt⟩
    have hlast := (hall steps a' hrun 31 (hmem 31 (by norm_num))).lt
    have hsecond := (hall steps a' hrun 1 (hmem 1 (by norm_num))).offset
    have hle := readCmdqInfo_ok haccept
    constructor
    · have heq : 2 ^ info.log_size = 2 ^ 5 := by omega
      exact Nat.pow_right_injective (Nat.le_refl 2) heq
    · have heq : 2 ^ info.log_stride = 2 ^ 6 := by
        unfold cqeOffset CQE_BYTES at hsecond
        omega
      exact Nat.pow_right_injective (Nat.le_refl 2) heq
  · rintro ⟨hlog, hstride⟩ steps a' hrun slot hslot
    have hlt := (slots_lt hrun hsize (by omega)).2 slot hslot
    refine ⟨?_, ?_, cqe_inside hcq hrun slot hslot⟩
    · rw [hlog]
      exact hlt
    · rw [hstride]
      rfl

/-- The register of a device with 16 slots of 64 bytes. -/
def sixteenSlots : Word := iowrite32be 0x46

/-- The arguments as `main` sets them up. -/
def mainArgs : CMD.CMD_Args := { CMD.freshArgs 32 with cq := mainQueue ⟨0x1000, 0x1000⟩ }

/-- These arguments are ready for a command. -/
theorem mainArgs_ready : CMD.Ready mainArgs :=
  have hidle : CMD.Idle (CMD.freshArgs 32) := CMD.freshArgs_idle (by norm_num) (by norm_num)
  have h := hidle.toReady
  ⟨h.size_pos, h.size_le, h.head, h.imb, h.omb, h.disjoint⟩

/-- The numbers of this device are accepted, and the 17th command goes to a slot that the device does
not have. -/
theorem sixteenSlots_not_shared :
    readCmdqInfo sixteenSlots () = .ok ⟨4, 6⟩ () ∧ ¬ SharesSlots ⟨4, 6⟩ mainArgs := by
  refine ⟨rfl, fun hall => ?_⟩
  obtain ⟨steps, a', hrun, -, -, -, hslots⟩ := exists_run mainArgs_ready rfl rfl 17
  have hmem : 16 ∈ slots steps := by
    rw [hslots]
    decide
  exact absurd (hall steps a' hrun 16 hmem).lt (by norm_num)

/-- The numbers 5 and 6 are accepted as well. -/
theorem thirtyTwoSlots_shared : SharesSlots ⟨5, 6⟩ mainArgs :=
  (sharesSlots_iff (iowrite32be 0x56) ⟨5, 6⟩ () () rfl ⟨0x1000, 0x1000⟩ mainArgs
    mainArgs_ready rfl).mpr ⟨rfl, rfl⟩

end L4Rdma.Driver
