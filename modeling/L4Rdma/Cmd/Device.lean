import L4Rdma.Cmd.Create

/-!
# The device

The device is not part of the driver. It reads a command from its command queue entry and from the
chain of blocks that starts at the entry's input mailbox, computes a reply, which may depend on
everything that it has seen before, and writes it to the entry and to the chain that starts at the
output mailbox. It follows the blocks' next pointers, and sees every word with its bytes in its own
order. How it computes replies is a parameter (`Device`).
-/

namespace L4Rdma.CMD

open Lib Device

/-! ## Commands and replies -/

/-- A command, as the device sees it. -/
structure Command where
  opcode : Word
  op_mod : Word
  payload : List Word
  /-- The number of words that the reply has room for. -/
  output_length : ℕ
  deriving DecidableEq

/-- What the device replies. -/
structure Reply where
  /-- The status of the command queue entry. -/
  cqe_status : Word
  /-- The status of the command. -/
  cod_status : Word
  output : ℕ → Word

/-- The device reports success. -/
def Reply.Ok (r : Reply) : Prop := r.cqe_status = 0 ∧ r.cod_status = 0

/-- How a device with the state `δ` replies to a command. -/
structure HCA (δ : Type) where
  exec : δ → Command → δ × Reply

/-! ## Chains -/

/-- The address of block `k` of the chain that starts at an address. -/
def blockAt (mbb : ℕ → MBB) (addr : ℕ) : ℕ → ℕ
  | 0 => addr
  | k + 1 => (mbb (blockAt mbb addr k)).next

/-- Word `j` of a chain. -/
def chainWord (mbb : ℕ → MBB) (addr j : ℕ) : Word :=
  ioread32be ((mbb (blockAt mbb addr (j / 128))).mailbox_data (j % 128))

/-- Writes a word of a block. -/
def MBB.setWord (b : MBB) (i : ℕ) (w : Word) : MBB :=
  { b with mailbox_data := Function.update b.mailbox_data i (iowrite32be w) }

/-- Writes the first words of a chain, whose blocks have been found before. -/
def writeChain (mbb : ℕ → MBB) (addr : ℕ) (word : ℕ → Word) : ℕ → ℕ → MBB
  | 0 => mbb
  | n + 1 =>
    let block := blockAt mbb addr (n / 128)
    let written := writeChain mbb addr word n
    Function.update written block ((written block).setWord (n % 128) (word n))

/-! ## Executing a command -/

/-- The number of words after the first two of a length in bytes. -/
def wordLength (length : Word) : ℕ := length.toNat / 4 - 2

/-- Word `j` of the input of the command in a slot. -/
def inputWord (a : CMD_Args) (slot j : ℕ) : Word :=
  let cqe := a.cqe slot
  if h : j < 2 then ioread32be (cqe.cid.data ⟨j, h⟩)
  else chainWord a.mbb
    (address (ioread32be cqe.input_mailbox_msb) (ioread32be cqe.input_mailbox_lsb)) (j - 2)

/-- The command in a slot. -/
def readCommand (a : CMD_Args) (slot : ℕ) : Command where
  opcode := ioread32be (a.cqe slot).cid.opcode >>> CID_OPCODE_OFFSET
  op_mod := ioread32be (a.cqe slot).cid.op_mod
  payload := (List.range (wordLength (ioread32be (a.cqe slot).input_length))).map (inputWord a slot)
  output_length := wordLength (ioread32be (a.cqe slot).output_length)

/-- The entry of a command that has been replied to. The ownership bit is clear. -/
def CQE.complete (cqe : CQE) (r : Reply) : CQE :=
  { cqe with
    cod := { cqe.cod with
      status := iowrite32be (r.cod_status <<< COD_STATUS_OFFSET)
      output := fun i =>
        if i.val < wordLength (ioread32be cqe.output_length) then iowrite32be (r.output i)
        else cqe.cod.output i }
    ctrl := iowrite32be (r.cqe_status <<< CQE_STATUS_OFFSET &&& CQE_STATUS_MASK) }

/-- Writes the reply to the command in a slot. -/
def complete (a : CMD_Args) (slot : ℕ) (r : Reply) : CMD_Args :=
  let cqe := a.cqe slot
  (a.setCqe slot (cqe.complete r)).setMbb (writeChain a.mbb
    (address (ioread32be cqe.output_mailbox_msb) (ioread32be cqe.output_mailbox_lsb))
    (fun j => r.output (2 + j)) (wordLength (ioread32be cqe.output_length) - 2))

/-- The driver's command arguments, the device, and the commands that the device has seen. -/
structure World (δ : Type) where
  args : CMD_Args
  dev : δ
  seen : List Command

variable {δ : Type}

/-- The device executes the command in a slot. -/
def World.execSlot (D : HCA δ) (w : World δ) (slot : ℕ) : World δ :=
  let c := readCommand w.args slot
  let (dev, r) := D.exec w.dev c
  { args := complete w.args slot r, dev := dev, seen := w.seen ++ [c] }

/-- The device executes the commands whose doorbells have been rung. -/
def World.serve (D : HCA δ) (w : World δ) : World δ :=
  w.args.rung.foldl (World.execSlot D) { w with args := { w.args with rung := [] } }

/-! ## What the device finds -/

variable {m : MEM.DmaMem} {mbb mbb' : ℕ → MBB} {n : ℕ} {a : CMD_Args} {slot : ℕ} {payload : Buf}
  {payload_length output_length : ℕ}

/-- The device finds the blocks of a chain that the driver has tied together. -/
theorem Chain.blockAt (h : Chain m n mbb) {k : ℕ} (hk : k ≤ n) :
    blockAt mbb m.phys k = blockAddr m k := by
  induction k with
  | zero => rfl
  | succ k ih => rw [CMD.blockAt, ih (Nat.le_of_succ_le hk), h k (Nat.lt_of_succ_le hk)]

/-- The beginning of a chain is a chain. -/
theorem Chain.mono {n' : ℕ} (h : Chain m n mbb) (hn : n' ≤ n) : Chain m n' mbb :=
  fun k hk => h k (Nat.lt_of_lt_of_le hk hn)

/-- The words that the device finds in a chain are those of the mailbox. -/
theorem Chain.chainWord (h : Chain m n mbb) {j : ℕ} (hj : j / 128 ≤ n) :
    chainWord mbb m.phys j = mailWord m mbb j := by
  rw [CMD.chainWord, h.blockAt hj, mailWord]

/-- A chain is one as long as the headers of its blocks stay. -/
theorem Chain.congr (h : Chain m n mbb) (hheader : ∀ a, (mbb' a).header = (mbb a).header) :
    Chain m n mbb' := fun k hk => by
  rw [MBB.next_of_header (hheader _)]
  exact h k hk

/-- The device writes the words of a chain to their places in the mailbox. -/
theorem Chain.writeChain {word : ℕ → Word} {N : ℕ} (h : Chain m n mbb) (hN : ∀ j, j < N → j / 128 ≤ n) :
    Packed m word N mbb (writeChain mbb m.phys word N) := by
  induction N with
  | zero => exact packed_zero
  | succ N ih =>
    have hp := ih fun j hj => hN j (Nat.lt_succ_of_lt hj)
    have hblock := h.blockAt (hN N (Nat.lt_succ_self N))
    unfold CMD.writeChain
    simp only [hblock]
    exact hp.step

/-! ## What the fields of an entry say -/

/-- The lower half of an aligned address passes through the mask for mailbox addresses. -/
theorem lsb_and_mask {phys : ℕ} (h : phys % MAILBOX_ALIGN_SIZE = 0) :
    lsb phys &&& CQE_MAILBOX_MASK = lsb phys := by
  unfold MAILBOX_ALIGN_SIZE at h
  obtain ⟨q, rfl⟩ : ∃ q, phys = 2 ^ 12 * q := ⟨phys / 2 ^ 12, by omega⟩
  refine BitVec.eq_of_getLsbD_eq fun i hi => ?_
  have hmask : 12 ≤ i → CQE_MAILBOX_MASK.getLsbD i = true := by
    intro hge
    interval_cases i <;> rfl
  rw [BitVec.getLsbD_and, lsb, BitVec.getLsbD_ofNat, Nat.testBit_two_pow_mul]
  rcases Nat.lt_or_ge i 12 with hlt | hge
  · simp [Nat.not_le_of_lt hlt]
  · simp [hmask hge]

/-- The device finds the mailbox whose address `createCqe` has put into an entry. -/
theorem address_mailbox {length : ℕ} (hm : MailboxOk m) (hlong : 2 < length) :
    address (ioread32be (mailboxMsb m length)) (ioread32be (mailboxLsb m length)) = m.phys := by
  have hfits := hm.fits
  unfold MAILBOX_ALIGN_SIZE MBB_MAX_COUNT at hfits
  unfold mailboxMsb mailboxLsb
  rw [if_pos hlong, if_pos hlong, ioread32be_iowrite32be, ioread32be_iowrite32be,
    lsb_and_mask hm.aligned]
  exact address_msb_lsb (by omega)

/-- The number of words that the device takes from a length in bytes. -/
theorem wordLength_byteLength {n : ℕ} (h : n ≤ 2 + IMB_MAX_DATA) :
    wordLength (ioread32be (iowrite32be (BitVec.ofNat 32 (byteLength n)))) = n := by
  rw [byteLength_of_le h]
  unfold IMB_MAX_DATA MBB_MAX_COUNT at h
  rw [ioread32be_iowrite32be, wordLength, BitVec.toNat_ofNat, Nat.mod_eq_of_lt (by omega)]
  omega

/-- The number of a command has 16 bits. -/
theorem opcode_value (opcode : OPCODE) :
    (CID_OPCODE_MASK &&& (opcode.value <<< CID_OPCODE_OFFSET)) >>> CID_OPCODE_OFFSET =
      opcode.value := by
  cases opcode <;> rfl

/-! ## What the device sees of a command -/

/-- The words of a payload. -/
def Buf.words (payload : Buf) (payload_length : ℕ) : List Word :=
  (List.range payload_length).map payload.word

/-- A command of the driver, as the device is to see it. -/
def command (opcode : OPCODE) (op_mod : Word) (payload : Buf)
    (payload_length output_length : ℕ) : Command where
  opcode := opcode.value
  op_mod := CID_OP_MOD_MASK &&& op_mod
  payload := Buf.words payload payload_length
  output_length := output_length

/-- A mailbox holds the words of a payload after the first two, in a chain. -/
def Holds (m : MEM.DmaMem) (payload : Buf) (payload_length : ℕ) (mbb : ℕ → MBB) : Prop :=
  2 < payload_length → Chain m ((payload_length - 3) / 128) mbb ∧
    ∀ j, j < payload_length - 2 → mailWord m mbb j = payload.word (2 + j)

/-- `createCqe` leaves the payload in the input mailbox. -/
theorem InputMail.holds (h : InputMail m payload payload_length mbb mbb') :
    Holds m payload payload_length mbb' := by
  intro hlong
  rw [InputMail, if_pos hlong] at h
  obtain ⟨mbb₁, hpacked, htied⟩ := h
  refine ⟨htied.chain, fun j hj => ?_⟩
  rw [mailWord, htied.data]
  exact hpacked.data j hj

/-- Setting up the output mailbox leaves what the input mailbox holds. -/
theorem Holds.outputMail {m' : MEM.DmaMem} (h : Holds m payload payload_length mbb)
    (hdisj : Disjoint m m') (hpl : payload_length ≤ 2 + IMB_MAX_DATA)
    (hol : output_length ≤ 2 + IMB_MAX_DATA) (hout : OutputMail m' output_length mbb mbb') :
    Holds m payload payload_length mbb' := by
  unfold OutputMail at hout
  rcases Nat.lt_or_ge 2 output_length with hlong | hshort
  · rw [if_pos hlong] at hout
    intro hlong'
    obtain ⟨hchain, hwords⟩ := h hlong'
    have hlast : (output_length - 3) / 128 < MBB_MAX_COUNT := block_lt (by omega)
    have hfirst : (payload_length - 3) / 128 < MBB_MAX_COUNT := block_lt (by omega)
    refine ⟨fun k hk => ?_, fun j hj => ?_⟩
    · rw [hout.other _ fun i hi => hdisj.blockAddr_ne (by omega) (by omega)]
      exact hchain k hk
    · rw [mailWord, hout.data]
      exact hwords j hj
  · rw [if_neg (Nat.not_lt_of_le hshort)] at hout
    rwa [hout]

/-- Word `j` of the input of a command that `createCqe` has made. -/
theorem inputWord_eq {opcode : OPCODE} {op_mod : Word} (himb : MailboxOk a.imb_mem)
    (hcqe : a.cqe slot = newCqe a opcode op_mod payload payload_length output_length)
    (h : Holds a.imb_mem payload payload_length a.mbb) {j : ℕ} (hj : j < payload_length) :
    inputWord a slot j = payload.word j := by
  unfold inputWord
  simp only [hcqe]
  by_cases hinline : j < 2
  · rw [dif_pos hinline]
    simp only [newCqe, inlineData, if_pos hj, swapEndian_swapEndian]
  · have hlong : 2 < payload_length := by omega
    obtain ⟨hchain, hwords⟩ := h hlong
    have hblock : (j - 2) / 128 ≤ (payload_length - 3) / 128 := Nat.div_le_div_right (by omega)
    rw [dif_neg hinline]
    simp only [newCqe]
    rw [address_mailbox himb hlong, hchain.chainWord hblock, hwords (j - 2) (by omega),
      show 2 + (j - 2) = j by omega]

/-- The device sees exactly the command that the driver has passed to `createCqe`. -/
theorem readCommand_eq {opcode : OPCODE} {op_mod : Word} (himb : MailboxOk a.imb_mem)
    (hfits : Fits payload payload_length output_length)
    (hcqe : a.cqe slot = newCqe a opcode op_mod payload payload_length output_length)
    (h : Holds a.imb_mem payload payload_length a.mbb) :
    readCommand a slot = command opcode op_mod payload payload_length output_length := by
  have hpl : wordLength (ioread32be (a.cqe slot).input_length) = payload_length := by
    rw [hcqe]
    exact wordLength_byteLength hfits.payload_le
  have hol : wordLength (ioread32be (a.cqe slot).output_length) = output_length := by
    rw [hcqe]
    exact wordLength_byteLength hfits.output_le
  have hpayload : (List.range payload_length).map (inputWord a slot) =
      Buf.words payload payload_length :=
    List.map_congr_left fun j hj => inputWord_eq himb hcqe h (List.mem_range.mp hj)
  unfold readCommand command
  rw [hpl, hol, hpayload, hcqe]
  simp only [newCqe, swapEndian_swapEndian, opcode_value]

/-! ## What the driver gets of a reply -/

/-- The output of a command is where the driver looks for it. -/
structure Answered (a : CMD_Args) (slot output_length : ℕ) (r : Reply) : Prop where
  ctrl : (a.cqe slot).ctrl = iowrite32be (r.cqe_status <<< CQE_STATUS_OFFSET &&& CQE_STATUS_MASK)
  status : (a.cqe slot).cod.status = iowrite32be (r.cod_status <<< COD_STATUS_OFFSET)
  inline : ∀ i : Fin 2, i.val < output_length →
    ioread32be ((a.cqe slot).cod.output i) = r.output i
  mail : ∀ j, j < output_length - 2 → mailWord a.omb_mem a.mbb j = r.output (2 + j)

/-- The device writes the words of its reply after the first two to the output mailbox, if it finds
the blocks there in a chain, and to nothing else. -/
theorem complete_packed {opcode : OPCODE} {op_mod : Word} {r : Reply} (homb : MailboxOk a.omb_mem)
    (hfits : Fits payload payload_length output_length)
    (hcqe : a.cqe slot = newCqe a opcode op_mod payload payload_length output_length)
    (hout : 2 < output_length → Chain a.omb_mem ((output_length - 3) / 128) a.mbb) :
    Packed a.omb_mem (fun j => r.output (2 + j)) (output_length - 2) a.mbb
      (complete a slot r).mbb := by
  have hol : wordLength (ioread32be (a.cqe slot).output_length) = output_length := by
    rw [hcqe]
    exact wordLength_byteLength hfits.output_le
  rcases Nat.lt_or_ge 2 output_length with hlong | hshort
  · have haddr : address (ioread32be (a.cqe slot).output_mailbox_msb)
        (ioread32be (a.cqe slot).output_mailbox_lsb) = a.omb_mem.phys := by
      rw [hcqe]
      exact address_mailbox homb hlong
    have hmbb : (complete a slot r).mbb = writeChain a.mbb a.omb_mem.phys
        (fun j => r.output (2 + j)) (output_length - 2) := by
      unfold complete
      simp only [hol, haddr, setMbb_mbb]
    rw [hmbb]
    exact (hout hlong).writeChain fun j hj => Nat.div_le_div_right (by omega)
  · have hnone : output_length - 2 = 0 := by omega
    have hmbb : (complete a slot r).mbb = a.mbb := by
      unfold complete
      simp only [hol, hnone, setMbb_mbb, writeChain]
    rw [hmbb, hnone]
    exact packed_zero

/-- The device writes its reply to where the driver looks for it. -/
theorem complete_answered {opcode : OPCODE} {op_mod : Word} {r : Reply} (homb : MailboxOk a.omb_mem)
    (hfits : Fits payload payload_length output_length)
    (hcqe : a.cqe slot = newCqe a opcode op_mod payload payload_length output_length)
    (hout : 2 < output_length → Chain a.omb_mem ((output_length - 3) / 128) a.mbb) :
    Answered (complete a slot r) slot output_length r := by
  have hol : wordLength (ioread32be (a.cqe slot).output_length) = output_length := by
    rw [hcqe]
    exact wordLength_byteLength hfits.output_le
  have hnew : (complete a slot r).cqe slot = (a.cqe slot).complete r :=
    Function.update_self _ _ _
  refine ⟨by rw [hnew]; rfl, by rw [hnew]; rfl, fun i hi => ?_, fun j hj => ?_⟩
  · rw [hnew]
    unfold CQE.complete
    simp only [hol, if_pos hi, swapEndian_swapEndian]
  · exact (complete_packed homb hfits hcqe hout).data j hj

end L4Rdma.CMD
