import L4Rdma.Queue

/-!
# The command layer

`server/src/cmd.{h,cc}`. The driver gives commands to the device through a ring of command queue
entries (CQE) in memory that both of them see. An entry has room for the first two words of a
command's input and of its output. Longer inputs and outputs go through two mailboxes, the same ones
for all commands: chains of blocks (MBB), each with room for 128 words.

The driver reaches a mailbox block through the mailbox's virtual address, and the device through its
DMA address. Both are contiguous, so a block is known here by its DMA address. A mailbox has
`MBB_MAX_COUNT` blocks, and an access beyond them is one outside of the mailbox's memory.
-/

namespace L4Rdma.CMD

open Lib Device

/-! ## Constants -/

/-- The bits of a mailbox's address in the lower word. -/
def CQE_MAILBOX_MASK : Word := ~~~ 0x1ff

/-- The bits of an entry's type. -/
def CQE_TYPE_MASK : Word := 0xff000000

/-- The bits of an entry's status. -/
def CQE_STATUS_MASK : Word := 0x000000fe

/-- The bit of an entry that says whether it is in hardware. -/
def CQE_OWNERSHIP_MASK : Word := 0x00000001

/-- The bits of a command's opcode. -/
def CID_OPCODE_MASK : Word := 0xffff0000

/-- The bits of a command's modifier. -/
def CID_OP_MOD_MASK : Word := 0x0000ffff

/-- The bits of an output's status. -/
def COD_STATUS_MASK : Word := 0xff000000

/-- The place of the type in its word. -/
def CQE_TYPE_OFFSET : ℕ := 24

/-- The place of the status in the last word of an entry. -/
def CQE_STATUS_OFFSET : ℕ := 1

/-- The place of the opcode in its word. -/
def CID_OPCODE_OFFSET : ℕ := 16

/-- The place of an output's status in its word. -/
def COD_STATUS_OFFSET : ℕ := 24

/-- The distance of two blocks of a mailbox. -/
abbrev MAILBOX_ALIGN_SIZE : ℕ := 0x1000

/-- The maximal number of blocks in a mailbox. -/
abbrev MBB_MAX_COUNT : ℕ := 50

/-- The number of words of input data that fit into the input mailbox. -/
abbrev IMB_MAX_DATA : ℕ := 128 * MBB_MAX_COUNT

/-- The number of words of output data that fit into the output mailbox. -/
abbrev OMB_MAX_DATA : ℕ := 128 * MBB_MAX_COUNT

/-- The commands that the driver knows. -/
inductive OPCODE
  | QUERY_HCA_CAP | QUERY_ADAPTER | INIT_HCA | TEARDOWN_HCA | ENABLE_HCA | DISABLE_HCA
  | QUERY_PAGES | MANAGE_PAGES | SET_HCA_CAP | QUERY_ISSI | SET_ISSI | SET_DRIVER_VERSION
  | CREATE_MKEY | QUERY_MKEY | DESTROY_MKEY | QUERY_SPECIAL_CONTEXTS
  | CREATE_EQ | DESTROY_EQ | QUERY_EQ | GEN_EQE
  | CREATE_CQ | DESTROY_CQ | QUERY_CQ | MODIFY_CQ
  | QUERY_VPORT_STATE | MODIFY_VPORT_STATE | QUERY_NIC_VPORT_CONTEXT | MODIFY_NIC_VPORT_CONTEXT
  | QUERY_VPORT_COUNTER | ALLOC_PD | DEALLOC_PD | ALLOC_UAR | DEALLOC_UAR
  | CONFIG_INT_MODERATION | ACCESS_REG | NOP | ALLOC_TRANSPORT_DOMAIN | DEALLOC_TRANSPORT_DOMAIN
  | SET_L2_TABLE_ENTRY | QUERY_L2_TABLE_ENTRY | DELETE_L2_TABLE_ENTRY
  | CREATE_TIR | MODIFY_TIR | DESTROY_TIR | QUERY_TIR
  | CREATE_SQ | MODIFY_SQ | DESTROY_SQ | QUERY_SQ
  | CREATE_RQ | MODIFY_RQ | DESTROY_RQ | QUERY_RQ
  | CREATE_RMP | MODIFY_RMP | DESTROY_RMP | QUERY_RMP
  | CREATE_TIS | MODIFY_TIS | DESTROY_TIS | QUERY_TIS
  | CREATE_RQT | MODIFY_RQT | DESTROY_RQT | QUERY_RQT
  | SET_FLOW_TABLE_ROOT | CREATE_FLOW_TABLE | DESTROY_FLOW_TABLE | QUERY_FLOW_TABLE
  | CREATE_FLOW_GROUP | DESTROY_FLOW_GROUP | QUERY_FLOW_GROUP
  | SET_FLOW_TABLE_ENTRY | QUERY_FLOW_TABLE_ENTRY | DELETE_FLOW_TABLE_ENTRY
  | ALLOC_FLOW_COUNTER | DEALLOC_FLOW_COUNTER | QUERY_FLOW_COUNTER | MODIFY_FLOW_TABLE
  deriving DecidableEq, Repr

/-- The number of a command. -/
def OPCODE.value : OPCODE → Word
  | QUERY_HCA_CAP => 0x100
  | QUERY_ADAPTER => 0x101
  | INIT_HCA => 0x102
  | TEARDOWN_HCA => 0x103
  | ENABLE_HCA => 0x104
  | DISABLE_HCA => 0x105
  | QUERY_PAGES => 0x107
  | MANAGE_PAGES => 0x108
  | SET_HCA_CAP => 0x109
  | QUERY_ISSI => 0x10a
  | SET_ISSI => 0x10b
  | SET_DRIVER_VERSION => 0x10d
  | CREATE_MKEY => 0x200
  | QUERY_MKEY => 0x201
  | DESTROY_MKEY => 0x202
  | QUERY_SPECIAL_CONTEXTS => 0x203
  | CREATE_EQ => 0x301
  | DESTROY_EQ => 0x302
  | QUERY_EQ => 0x303
  | GEN_EQE => 0x304
  | CREATE_CQ => 0x400
  | DESTROY_CQ => 0x401
  | QUERY_CQ => 0x402
  | MODIFY_CQ => 0x403
  | QUERY_VPORT_STATE => 0x750
  | MODIFY_VPORT_STATE => 0x751
  | QUERY_NIC_VPORT_CONTEXT => 0x754
  | MODIFY_NIC_VPORT_CONTEXT => 0x755
  | QUERY_VPORT_COUNTER => 0x770
  | ALLOC_PD => 0x800
  | DEALLOC_PD => 0x801
  | ALLOC_UAR => 0x802
  | DEALLOC_UAR => 0x803
  | CONFIG_INT_MODERATION => 0x804
  | ACCESS_REG => 0x805
  | NOP => 0x80d
  | ALLOC_TRANSPORT_DOMAIN => 0x816
  | DEALLOC_TRANSPORT_DOMAIN => 0x817
  | SET_L2_TABLE_ENTRY => 0x829
  | QUERY_L2_TABLE_ENTRY => 0x82a
  | DELETE_L2_TABLE_ENTRY => 0x82b
  | CREATE_TIR => 0x900
  | MODIFY_TIR => 0x901
  | DESTROY_TIR => 0x902
  | QUERY_TIR => 0x903
  | CREATE_SQ => 0x904
  | MODIFY_SQ => 0x905
  | DESTROY_SQ => 0x906
  | QUERY_SQ => 0x907
  | CREATE_RQ => 0x908
  | MODIFY_RQ => 0x909
  | DESTROY_RQ => 0x90a
  | QUERY_RQ => 0x90b
  | CREATE_RMP => 0x90c
  | MODIFY_RMP => 0x90d
  | DESTROY_RMP => 0x90e
  | QUERY_RMP => 0x90f
  | CREATE_TIS => 0x912
  | MODIFY_TIS => 0x913
  | DESTROY_TIS => 0x914
  | QUERY_TIS => 0x915
  | CREATE_RQT => 0x916
  | MODIFY_RQT => 0x917
  | DESTROY_RQT => 0x918
  | QUERY_RQT => 0x919
  | SET_FLOW_TABLE_ROOT => 0x92f
  | CREATE_FLOW_TABLE => 0x930
  | DESTROY_FLOW_TABLE => 0x931
  | QUERY_FLOW_TABLE => 0x932
  | CREATE_FLOW_GROUP => 0x933
  | DESTROY_FLOW_GROUP => 0x934
  | QUERY_FLOW_GROUP => 0x935
  | SET_FLOW_TABLE_ENTRY => 0x936
  | QUERY_FLOW_TABLE_ENTRY => 0x937
  | DELETE_FLOW_TABLE_ENTRY => 0x938
  | ALLOC_FLOW_COUNTER => 0x939
  | DEALLOC_FLOW_COUNTER => 0x93a
  | QUERY_FLOW_COUNTER => 0x93b
  | MODIFY_FLOW_TABLE => 0x93c

/-! ## Data -/

/-- Command input data. -/
structure CID where
  opcode : Word := 0
  op_mod : Word := 0
  data : Fin 2 → Word := fun _ => 0

/-- Command output data. -/
structure COD where
  status : Word := 0
  syndrome : Word := 0
  output : Fin 2 → Word := fun _ => 0

/-- Command queue entry. -/
structure CQE where
  type : Word := 0
  input_length : Word := 0
  input_mailbox_msb : Word := 0
  input_mailbox_lsb : Word := 0
  cid : CID := {}
  cod : COD := {}
  output_mailbox_msb : Word := 0
  output_mailbox_lsb : Word := 0
  output_length : Word := 0
  ctrl : Word := 0

/-- Mailbox block. -/
structure MBB where
  mailbox_data : ℕ → Word
  next_pointer_msb : Word
  next_pointer_lsb : Word
  block_number : Word
  ctrl : Word

/-- All the things needed to execute commands, with the memory behind them. -/
structure CMD_Args where
  cq : Q.Queue
  imb_mem : MEM.DmaMem
  omb_mem : MEM.DmaMem
  /-- The command queue entries at `cq.start`. -/
  cqe : ℕ → CQE
  /-- The mailbox blocks, by their DMA address. -/
  mbb : ℕ → MBB
  /-- The doorbell vector. -/
  dbv : Word
  /-- The slots whose doorbell has been rung and that the device has not come to yet. -/
  rung : List ℕ

/-! ## Mailboxes -/

/-- The DMA address of block `i` of a mailbox. -/
def blockAddr (mailbox : MEM.DmaMem) (i : ℕ) : ℕ := mailbox.phys + MAILBOX_ALIGN_SIZE * i

/-- Writes to block `i` of a mailbox. -/
def writeBlock (mailbox : MEM.DmaMem) (i : ℕ) (f : MBB → MBB) : Exec CMD_Args Unit :=
  if i < MBB_MAX_COUNT then
    modify fun a => { a with
      mbb := Function.update a.mbb (blockAddr mailbox i) (f (a.mbb (blockAddr mailbox i))) }
  else throw (.undefined .out_of_bounds)

/-- `prepare_mbb`. -/
def prepareMbb (phys_addr block_number : ℕ) (mailbox_block : MBB) : MBB :=
  { mailbox_block with
    next_pointer_msb := iowrite32be (msb phys_addr)
    next_pointer_lsb := iowrite32be (lsb phys_addr)
    block_number := iowrite32be (BitVec.ofNat 32 block_number)
    ctrl := iowrite32be 0 }

/-- One round of the loop of `tie_mail_together`. -/
def tieBlock (mailbox : MEM.DmaMem) (i : ℕ) (_ : Unit) : Exec CMD_Args Unit :=
  writeBlock mailbox i (prepareMbb ((blockAddr mailbox i + MAILBOX_ALIGN_SIZE) % 2 ^ 64) i)

/-- `tie_mail_together`: makes mailbox blocks into a list for the hardware by adding next_pointer and
block_number to each. -/
def tieMailTogether (mailbox : MEM.DmaMem) (mailbox_counter : ℕ) : Exec CMD_Args Unit := do
  forRange mailbox_counter () (tieBlock mailbox)
  -- The last block has a next_pointer of 0.
  writeBlock mailbox mailbox_counter (prepareMbb 0 mailbox_counter)

/-- The place of the next word: a new block is started after the data of a block is full. The
counters are `data_counter` and `mailbox_counter`. -/
def nextPlace (c : ℕ × ℕ) : ℕ × ℕ := if c.1 = 128 then (0, c.2 + 1) else c

/-- One round of the loop of `pack_mail`. -/
def packWord (mailbox : MEM.DmaMem) (payload : Buf) (start i : ℕ) (c : ℕ × ℕ) :
    Exec CMD_Args (ℕ × ℕ) := do
  let (data_counter, mailbox_counter) := nextPlace c
  let w ← payload.read (start + i)
  writeBlock mailbox mailbox_counter fun package =>
    { package with
      mailbox_data := Function.update package.mailbox_data data_counter (iowrite32be w) }
  return (data_counter + 1, mailbox_counter)

/-- `pack_mail`: puts the words of a payload from `start` on into mailbox blocks. -/
def packMail (mailbox : MEM.DmaMem) (payload : Buf) (start length : ℕ) : Exec CMD_Args Unit := do
  let (_, mailbox_counter) ← forRange length (0, 0) (packWord mailbox payload start)
  tieMailTogether mailbox mailbox_counter

/-- One round of the loop of `unpack_mail`. -/
def unpackWord (mailbox : MEM.DmaMem) (start i : ℕ) (c : (ℕ × ℕ) × Buf) :
    Exec CMD_Args ((ℕ × ℕ) × Buf) := do
  let (data_counter, mailbox_counter) := nextPlace c.1
  let a ← get
  if mailbox_counter < MBB_MAX_COUNT then
    let w := ioread32be ((a.mbb (blockAddr mailbox mailbox_counter)).mailbox_data data_counter)
    let payload ← c.2.write (start + i) w
    return ((data_counter + 1, mailbox_counter), payload)
  else throw (.undefined .out_of_bounds)

/-- `unpack_mail`: takes words out of mailbox blocks, into a payload from `start` on. -/
def unpackMail (mailbox : MEM.DmaMem) (payload : Buf) (start length : ℕ) : Exec CMD_Args Buf := do
  let (_, payload) ← forRange length ((0, 0), payload) (unpackWord mailbox start)
  return payload

/-! ## Commands -/

/-- The arguments with another entry in a slot. -/
def CMD_Args.setCqe (a : CMD_Args) (slot : ℕ) (cqe : CQE) : CMD_Args :=
  { a with cqe := Function.update a.cqe slot cqe }

/-- The arguments with other mailbox blocks. -/
def CMD_Args.setMbb (a : CMD_Args) (mbb : ℕ → MBB) : CMD_Args := { a with mbb := mbb }

/-- Writes to the command queue entry in a slot. -/
def writeCqe (slot : ℕ) (f : CQE → CQE) : Exec CMD_Args Unit :=
  modify fun a => a.setCqe slot (f (a.cqe slot))

/-- Writes a word of input data. -/
def CQE.setData (cqe : CQE) (i : Fin 2) (w : Word) : CQE :=
  { cqe with cid := { cqe.cid with data := Function.update cqe.cid.data i (iowrite32be w) } }

/-- Writes the address of a mailbox as the input mailbox. -/
def CQE.setInputMailbox (cqe : CQE) (phys : ℕ) : CQE :=
  { cqe with
    input_mailbox_msb := iowrite32be (msb phys)
    input_mailbox_lsb := iowrite32be (lsb phys &&& CQE_MAILBOX_MASK) }

/-- Writes the address of a mailbox as the output mailbox. -/
def CQE.setOutputMailbox (cqe : CQE) (phys : ℕ) : CQE :=
  { cqe with
    output_mailbox_msb := iowrite32be (msb phys)
    output_mailbox_lsb := iowrite32be (lsb phys &&& CQE_MAILBOX_MASK) }

/-- Puts word `i` of a payload into the command queue entry. -/
def writeData (slot : ℕ) (payload : Buf) (i : Fin 2) : Exec CMD_Args Unit := do
  let w ← payload.read i
  writeCqe slot fun cqe => cqe.setData i w

/-- Puts the payload without the first 8 bytes into the input mailbox. -/
def writeInputMail (slot : ℕ) (payload : Buf) (payload_length : ℕ) : Exec CMD_Args Unit := do
  let a ← get
  packMail a.imb_mem payload 2 (payload_length - 2)
  writeCqe slot fun cqe => cqe.setInputMailbox a.imb_mem.phys

/-- The input part of `create_cqe`, whose conditions are nested there. -/
def writeInput (slot : ℕ) (payload : Buf) (payload_length input_length : ℕ) :
    Exec CMD_Args Unit := do
  doIf (input_length > 8) (writeData slot payload 0)
  doIf (input_length > 12) (writeData slot payload 1)
  doIf (input_length > 16) (writeInputMail slot payload payload_length)

/-- The number of blocks after the first one that an output of a length in bytes needs. -/
def outputBlocks (output_length : ℕ) : ℕ :=
  let mbb_bytes := 128 * 4
  let omb_length := output_length - 16
  if omb_length > mbb_bytes then
    if omb_length % mbb_bytes = 0 then omb_length / mbb_bytes - 1 else omb_length / mbb_bytes
  else 0

/-- The output part of `create_cqe`: sets up the chain of blocks of the output mailbox. -/
def writeOutput (slot : ℕ) (output_length : ℕ) : Exec CMD_Args Unit :=
  doIf (output_length > 16) do
    let a ← get
    tieMailTogether a.omb_mem (outputBlocks output_length)
    writeCqe slot fun cqe => cqe.setOutputMailbox a.omb_mem.phys

/-- The length in bytes of an input or output, as the command queue entry has it. -/
def byteLength (length : ℕ) : ℕ := (length + 2) * 4 % 2 ^ 32

/-- `create_cqe`. -/
def createCqe (opcode : OPCODE) (op_mod : Word) (payload : Buf)
    (payload_length output_length : ℕ) : Exec CMD_Args ℕ := do
  let output_length := byteLength output_length
  let slot := (← get).cq.head
  -- All registers are initialized to 0.
  writeCqe slot fun _ => {}
  let input_length := byteLength payload_length
  writeCqe slot fun cqe => { cqe with
    type := iowrite32be (CQE_TYPE_MASK &&& (0x7 : Word) <<< CQE_TYPE_OFFSET)
    input_length := iowrite32be (BitVec.ofNat 32 input_length) }
  writeInput slot payload payload_length input_length
  writeCqe slot fun cqe => { cqe with cid := { cqe.cid with
    opcode := iowrite32be (CID_OPCODE_MASK &&& (opcode.value <<< CID_OPCODE_OFFSET))
    op_mod := iowrite32be (CID_OP_MOD_MASK &&& op_mod) } }
  writeOutput slot output_length
  writeCqe slot fun cqe => { cqe with
    output_length := iowrite32be (BitVec.ofNat 32 output_length) }
  -- The ownership bit is set to hardware.
  writeCqe slot fun cqe => { cqe with ctrl := iowrite32be 1 }
  let (slot, cq) := Q.enqueue (← get).cq
  modify fun a => { a with cq := cq }
  return slot

/-- `ring_doorbell`. The device takes note of the slots whose bits are set. -/
def ringDoorbell (slots : List ℕ) : Exec CMD_Args Unit := do
  doIf (∃ slot ∈ slots, slot ≥ 32) (throw (.undefined .signed_overflow))
  let dbr := (slots.map fun slot => (1 : Word) <<< slot).sum
  modify fun a => { a with
    dbv := iowrite32be dbr
    rung := a.rung ++ (List.range 32).filter fun slot => dbr.getLsbD slot }

/-- `poll_ownership`: waits until the ownership bit is set to software, but not for ever. -/
def pollOwnership (slot : ℕ) : Exec CMD_Args Unit := do
  let a ← get
  doIf (ioread32be (a.cqe slot).ctrl &&& CQE_OWNERSHIP_MASK ≠ 0) (throw (.thrown "CMD Timeout"))

/-- `check_cqe_status`. -/
def checkCqeStatus (slot : ℕ) : Exec CMD_Args Unit := do
  let a ← get
  let status := (ioread32be (a.cqe slot).ctrl &&& CQE_STATUS_MASK) >>> CQE_STATUS_OFFSET
  doIf (status ≠ 0) (throw (.thrown "CQE Error"))

/-- `check_cod_status`. -/
def checkCodStatus (slot : ℕ) : Exec CMD_Args Unit := do
  let a ← get
  let status := (ioread32be (a.cqe slot).cod.status &&& COD_STATUS_MASK) >>> COD_STATUS_OFFSET
  doIf (status ≠ 0) (throw (.thrown "COD Error"))

/-- `validate_cqe`. -/
def validateCqe : List ℕ → Exec CMD_Args Unit
  | [] => return ()
  | slot :: slots => do
    pollOwnership slot
    checkCqeStatus slot
    checkCodStatus slot
    validateCqe slots

/-- `get_cmd_output`. -/
def getCmdOutput (slot : ℕ) (output : Buf) (output_length : ℕ) : Exec CMD_Args Buf := do
  let a ← get
  if output_length = 0 then return output
  let output ← output.write 0 (ioread32be ((a.cqe slot).cod.output 0))
  if output_length > 1 then
    let output ← output.write 1 (ioread32be ((a.cqe slot).cod.output 1))
    if output_length > 2 then unpackMail a.omb_mem output 2 (output_length - 2)
    else return output
  else return output

end L4Rdma.CMD
