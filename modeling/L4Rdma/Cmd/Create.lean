import L4Rdma.Cmd.Mailbox

/-!
# Creating a command

What `createCqe` leaves in the slot at the head (`newCqe`) and in the mailboxes (`InputMail`,
`OutputMail`), on command arguments that are `Ready`. It does not depend on what the ring and the
mailboxes contained. `createCqe_effect` is what can be said of every call that returns.
-/

namespace L4Rdma.CMD

open Lib Device

/-- Command arguments as `main` sets them up. -/
structure Ready (a : CMD_Args) : Prop where
  size_pos : 1 ≤ a.cq.size
  size_le : a.cq.size ≤ 32
  head : a.cq.head < a.cq.size
  imb : MailboxOk a.imb_mem
  omb : MailboxOk a.omb_mem
  disjoint : Disjoint a.imb_mem a.omb_mem

/-- Whether command arguments are ready can be evaluated. -/
instance (a : CMD_Args) : Decidable (Ready a) :=
  decidable_of_iff ((1 ≤ a.cq.size ∧ a.cq.size ≤ 32) ∧ a.cq.head < a.cq.size ∧
      (MailboxOk a.imb_mem ∧ MailboxOk a.omb_mem) ∧ Disjoint a.imb_mem a.omb_mem)
    ⟨fun ⟨⟨hpos, hle⟩, hhead, ⟨himb, homb⟩, hdisjoint⟩ => ⟨hpos, hle, hhead, himb, homb, hdisjoint⟩,
      fun h => ⟨⟨h.size_pos, h.size_le⟩, h.head, ⟨h.imb, h.omb⟩, h.disjoint⟩⟩

/-- A command within the limits of the mailboxes, whose payload is in an array that is long
enough. -/
structure Fits (payload : Buf) (payload_length output_length : ℕ) : Prop where
  payload_le : payload_length ≤ 2 + IMB_MAX_DATA
  payload_size : payload_length ≤ payload.size
  output_le : output_length ≤ 2 + OMB_MAX_DATA

/-- The halves of a mailbox's address as a command queue entry has them. -/
def mailboxMsb (m : MEM.DmaMem) (length : ℕ) : Word :=
  if 2 < length then iowrite32be (msb m.phys) else 0

/-- The halves of a mailbox's address as a command queue entry has them. -/
def mailboxLsb (m : MEM.DmaMem) (length : ℕ) : Word :=
  if 2 < length then iowrite32be (lsb m.phys &&& CQE_MAILBOX_MASK) else 0

/-- The first `n` words of a payload in a command queue entry. -/
def inlineData (payload : Buf) (n : ℕ) : Fin 2 → Word := fun i =>
  if i.val < n then iowrite32be (payload.word i) else 0

/-- The entry that `createCqe` makes. -/
def newCqe (a : CMD_Args) (opcode : OPCODE) (op_mod : Word) (payload : Buf)
    (payload_length output_length : ℕ) : CQE where
  type := iowrite32be (CQE_TYPE_MASK &&& (0x7 : Word) <<< CQE_TYPE_OFFSET)
  input_length := iowrite32be (BitVec.ofNat 32 (byteLength payload_length))
  input_mailbox_msb := mailboxMsb a.imb_mem payload_length
  input_mailbox_lsb := mailboxLsb a.imb_mem payload_length
  cid := {
    opcode := iowrite32be (CID_OPCODE_MASK &&& (opcode.value <<< CID_OPCODE_OFFSET))
    op_mod := iowrite32be (CID_OP_MOD_MASK &&& op_mod)
    data := inlineData payload payload_length }
  cod := {}
  output_mailbox_msb := mailboxMsb a.omb_mem output_length
  output_mailbox_lsb := mailboxLsb a.omb_mem output_length
  output_length := iowrite32be (BitVec.ofNat 32 (byteLength output_length))
  ctrl := iowrite32be 1

/-- What becomes of the blocks when a payload is put into the input mailbox. -/
def InputMail (m : MEM.DmaMem) (payload : Buf) (payload_length : ℕ) (mbb mbb' : ℕ → MBB) : Prop :=
  if 2 < payload_length then
    ∃ mbb₁, Packed m (fun j => payload.word (2 + j)) (payload_length - 2) mbb mbb₁ ∧
      Tied m ((payload_length - 3) / 128) mbb₁ mbb'
  else mbb' = mbb

/-- What becomes of the blocks when the output mailbox is set up. -/
def OutputMail (m : MEM.DmaMem) (output_length : ℕ) (mbb mbb' : ℕ → MBB) : Prop :=
  if 2 < output_length then Tied m ((output_length - 3) / 128) mbb mbb' else mbb' = mbb

variable {a : CMD_Args} {slot : ℕ} {payload : Buf} {payload_length output_length : ℕ}

/-- The length in bytes of a command within the limits. -/
theorem byteLength_of_le {n : ℕ} (h : n ≤ 2 + IMB_MAX_DATA) : byteLength n = (n + 2) * 4 := by
  unfold IMB_MAX_DATA MBB_MAX_COUNT at h
  rw [byteLength, Nat.mod_eq_of_lt (by omega)]

/-- The number of blocks after the first one, by dividing the length in bytes and correcting exact
multiples, is the number of the block of the last word. -/
theorem outputBlocks_eq {n : ℕ} (h : 2 < n) : outputBlocks ((n + 2) * 4) = (n - 3) / 128 := by
  unfold outputBlocks
  simp only
  split_ifs <;> omega

/-! ## Writing an entry -/

/-- Writing to an entry of the ring always succeeds. -/
@[simp] theorem writeCqe_apply (f : CQE → CQE) :
    writeCqe slot f a = .ok () (a.setCqe slot (f (a.cqe slot))) := rfl

/-- The entry is the one that has been written. -/
@[simp] theorem setCqe_cqe_self (x : CQE) : (a.setCqe slot x).cqe slot = x :=
  Function.update_self _ _ _

/-- The other entries stay as they are. -/
theorem setCqe_cqe_of_ne {slot' : ℕ} (h : slot' ≠ slot) (x : CQE) :
    (a.setCqe slot x).cqe slot' = a.cqe slot' :=
  Function.update_of_ne h _ _

/-- Writing an entry leaves the mailboxes. -/
@[simp] theorem setCqe_mbb (x : CQE) : (a.setCqe slot x).mbb = a.mbb := rfl

/-- Writing an entry leaves the head of the ring. -/
@[simp] theorem setCqe_cq (x : CQE) : (a.setCqe slot x).cq = a.cq := rfl

/-- Writing an entry leaves the place of the input mailbox. -/
@[simp] theorem setCqe_imb_mem (x : CQE) : (a.setCqe slot x).imb_mem = a.imb_mem := rfl

/-- Writing an entry leaves the place of the output mailbox. -/
@[simp] theorem setCqe_omb_mem (x : CQE) : (a.setCqe slot x).omb_mem = a.omb_mem := rfl

/-- The blocks are those that have been written. -/
@[simp] theorem setMbb_mbb (mbb : ℕ → MBB) : (a.setMbb mbb).mbb = mbb := rfl

/-- Writing blocks leaves the entries. -/
@[simp] theorem setMbb_cqe (mbb : ℕ → MBB) : (a.setMbb mbb).cqe = a.cqe := rfl

/-- Writing blocks leaves the head of the ring. -/
@[simp] theorem setMbb_cq (mbb : ℕ → MBB) : (a.setMbb mbb).cq = a.cq := rfl

/-- Writing blocks leaves the place of the output mailbox. -/
@[simp] theorem setMbb_omb_mem (mbb : ℕ → MBB) : (a.setMbb mbb).omb_mem = a.omb_mem := rfl

/-- Writing an entry twice. -/
@[simp] theorem setCqe_setCqe (x y : CQE) : (a.setCqe slot x).setCqe slot y = a.setCqe slot y := by
  unfold CMD_Args.setCqe
  rw [Function.update_idem]

/-- Blocks and entries can be written in either order. -/
@[simp] theorem setMbb_setCqe (x : CQE) (mbb : ℕ → MBB) :
    (a.setMbb mbb).setCqe slot x = (a.setCqe slot x).setMbb mbb := rfl

/-- Writing the blocks twice. -/
@[simp] theorem setMbb_setMbb (mbb mbb' : ℕ → MBB) : (a.setMbb mbb).setMbb mbb' = a.setMbb mbb' :=
  rfl

/-- Writing what is there already. -/
theorem setCqe_self : a.setCqe slot (a.cqe slot) = a := by
  unfold CMD_Args.setCqe
  rw [Function.update_eq_self]

/-- Arguments stay ready when an entry is written. -/
theorem Ready.setCqe (h : Ready a) (x : CQE) : Ready (a.setCqe slot x) :=
  ⟨h.size_pos, h.size_le, h.head, h.imb, h.omb, h.disjoint⟩

/-- Arguments stay ready when blocks are written. -/
theorem Ready.setMbb (h : Ready a) (mbb : ℕ → MBB) : Ready (a.setMbb mbb) :=
  ⟨h.size_pos, h.size_le, h.head, h.imb, h.omb, h.disjoint⟩

/-! ## The input -/

/-- A word that the payload has is written to the entry. -/
theorem writeData_ok {i : Fin 2} (h : i.val < payload.size) :
    writeData slot payload i a =
      .ok () (a.setCqe slot ((a.cqe slot).setData i (payload.word i))) := by
  rw [writeData, bind_of_ok (Buf.read_of_lt h a)]
  rfl

/-- The data of an entry, written word by word. -/
theorem inlineData_zero : inlineData payload 0 = fun _ => 0 := by
  funext i
  simp [inlineData]

/-- One more word of the payload is in the entry. -/
theorem update_inlineData (i : Fin 2) :
    Function.update (inlineData payload i) i (iowrite32be (payload.word i)) =
      inlineData payload (i + 1) := by
  funext j
  by_cases hj : j = i
  · subst hj
    simp [inlineData]
  · have hne : j.val ≠ i.val := fun he => hj (Fin.ext he)
    have hiff : j.val < i.val + 1 ↔ j.val < i.val := by omega
    simp [inlineData, Function.update_of_ne hj, hiff]

/-- An entry has room for two words. -/
theorem inlineData_of_two_le {n : ℕ} (h : 2 ≤ n) : inlineData payload n = inlineData payload 2 := by
  funext i
  have hi := i.isLt
  rw [inlineData, inlineData, if_pos (by omega), if_pos hi]

/-- The entry with the first `n` words of a payload. -/
def CQE.withData (cqe : CQE) (payload : Buf) (n : ℕ) : CQE :=
  { cqe with cid := { cqe.cid with data := inlineData payload n } }

/-- The entry with the input part of a command. -/
def CQE.withInput (cqe : CQE) (m : MEM.DmaMem) (payload : Buf) (payload_length : ℕ) : CQE :=
  { cqe.withData payload payload_length with
    input_mailbox_msb := mailboxMsb m payload_length
    input_mailbox_lsb := mailboxLsb m payload_length }

/-- The entry with the output part of a command. -/
def CQE.withOutput (cqe : CQE) (m : MEM.DmaMem) (output_length : ℕ) : CQE :=
  { cqe with
    output_mailbox_msb := mailboxMsb m output_length
    output_mailbox_lsb := mailboxLsb m output_length }

/-- Writing word `i` of a payload, if it has one. -/
theorem writeData_step {i : Fin 2} {c : Prop} [Decidable c] {cqe : CQE}
    (hc : c ↔ i.val < payload_length) (hsize : payload_length ≤ payload.size)
    (h : a.cqe slot = cqe.withData payload (min payload_length i)) :
    doIf c (writeData slot payload i) a =
      .ok () (a.setCqe slot (cqe.withData payload (min payload_length (i + 1)))) := by
  by_cases hi : i.val < payload_length
  · rw [doIf_of_pos (hc.mpr hi), writeData_ok (by omega), h]
    rw [Nat.min_eq_right (Nat.le_of_lt hi), Nat.min_eq_right (Nat.succ_le_of_lt hi)]
    unfold CQE.setData CQE.withData
    rw [← update_inlineData]
  · rw [doIf_of_neg (fun hcc => hi (hc.mp hcc))]
    have hmin : min payload_length (i.val + 1) = min payload_length i := by omega
    rw [hmin, ← h, setCqe_self]

/-- Putting the payload into the input mailbox, if it is longer than two words. -/
theorem writeInputMail_step (hready : Ready a) (h : Fits payload payload_length output_length)
    {c : Prop} [Decidable c] (hc : c ↔ 2 < payload_length)
    (hmsb : (a.cqe slot).input_mailbox_msb = 0) (hlsb : (a.cqe slot).input_mailbox_lsb = 0) :
    ∃ mbb', doIf c (writeInputMail slot payload payload_length) a =
        .ok () ((a.setCqe slot { a.cqe slot with
          input_mailbox_msb := mailboxMsb a.imb_mem payload_length
          input_mailbox_lsb := mailboxLsb a.imb_mem payload_length }).setMbb mbb') ∧
      InputMail a.imb_mem payload payload_length a.mbb mbb' := by
  have hle := h.payload_le
  have hsize := h.payload_size
  unfold InputMail mailboxMsb mailboxLsb
  by_cases hlong : 2 < payload_length
  · obtain ⟨mbb₁, mbb', hpack, hpacked, htied⟩ := packMail_ok hready.imb
      (show 0 < payload_length - 2 by omega) (by omega)
      (show 2 + (payload_length - 2) ≤ payload.size by omega) a
    refine ⟨mbb', ?_, ?_⟩
    · rw [doIf_of_pos (hc.mpr hlong), writeInputMail, get_bind, bind_of_ok hpack, if_pos hlong,
        if_pos hlong]
      rfl
    · rw [if_pos hlong]
      exact ⟨mbb₁, hpacked, htied⟩
  · refine ⟨a.mbb, ?_, by rw [if_neg hlong]⟩
    have hsame : { a.cqe slot with input_mailbox_msb := 0, input_mailbox_lsb := 0 } =
        a.cqe slot := by
      cases hcqe : a.cqe slot
      simp_all
    rw [doIf_of_neg (fun hcc => hlong (hc.mp hcc)), if_neg hlong, if_neg hlong, hsame,
      setCqe_self]
    rfl

/-- `writeInput` on an entry without input. -/
theorem writeInput_ok (slot : ℕ) (hready : Ready a) (h : Fits payload payload_length output_length)
    (hdata : (a.cqe slot).cid.data = fun _ => 0) (hmsb : (a.cqe slot).input_mailbox_msb = 0)
    (hlsb : (a.cqe slot).input_mailbox_lsb = 0) :
    ∃ mbb', writeInput slot payload payload_length (byteLength payload_length) a =
        .ok () ((a.setCqe slot
          ((a.cqe slot).withInput a.imb_mem payload payload_length)).setMbb mbb') ∧
      InputMail a.imb_mem payload payload_length a.mbb mbb' := by
  have hsize := h.payload_size
  let cqe := a.cqe slot
  have hzero : a.cqe slot = cqe.withData payload (min payload_length 0) := by
    rw [Nat.min_zero, CQE.withData, inlineData_zero, ← hdata]
  have h₀ := writeData_step (i := 0) (c := (payload_length + 2) * 4 > 8)
    (show _ ↔ 0 < payload_length by omega) hsize hzero
  -- The entry after one word of the payload.
  let a₁ := a.setCqe slot (cqe.withData payload (min payload_length 1))
  have h₁ : doIf ((payload_length + 2) * 4 > 12) (writeData slot payload 1) a₁ = _ :=
    writeData_step (show _ ↔ 1 < payload_length by omega) hsize (setCqe_cqe_self _)
  -- The entry after two words, of which it has fewer if the payload is shorter.
  let a₂ := a₁.setCqe slot (cqe.withData payload (min payload_length 2))
  have hcqe₂ : a₂.cqe slot = cqe.withData payload (min payload_length 2) := setCqe_cqe_self _
  obtain ⟨mbb', h₂, hmail⟩ := writeInputMail_step (a := a₂) (c := (payload_length + 2) * 4 > 16)
    ((hready.setCqe _).setCqe _) h (show _ ↔ 2 < payload_length by omega)
    (by rw [hcqe₂]; exact hmsb) (by rw [hcqe₂]; exact hlsb)
  -- Two words are all that an entry has room for.
  have hmin : cqe.withData payload (min payload_length 2) = cqe.withData payload payload_length := by
    unfold CQE.withData
    rcases Nat.lt_or_ge payload_length 2 with hlt | hge
    · rw [Nat.min_eq_left (Nat.le_of_lt hlt)]
    · rw [Nat.min_eq_right hge, inlineData_of_two_le hge]
  refine ⟨mbb', ?_, hmail⟩
  rw [byteLength_of_le h.payload_le]
  unfold writeInput
  refine (bind_of_ok h₀).trans ((bind_of_ok h₁).trans (h₂.trans ?_))
  rw [hcqe₂, hmin]
  unfold CQE.withInput
  simp only [a₂, a₁, setCqe_setCqe, setCqe_imb_mem]
  rfl

/-! ## The output -/

/-- `writeOutput` on an entry without output. -/
theorem writeOutput_ok (slot : ℕ) (hready : Ready a) (h : Fits payload payload_length output_length)
    (hmsb : (a.cqe slot).output_mailbox_msb = 0) (hlsb : (a.cqe slot).output_mailbox_lsb = 0) :
    ∃ mbb', writeOutput slot (byteLength output_length) a =
        .ok () ((a.setCqe slot
          ((a.cqe slot).withOutput a.omb_mem output_length)).setMbb mbb') ∧
      OutputMail a.omb_mem output_length a.mbb mbb' := by
  have hle : output_length ≤ 2 + IMB_MAX_DATA := h.output_le
  rw [byteLength_of_le hle]
  unfold writeOutput OutputMail CQE.withOutput mailboxMsb mailboxLsb
  by_cases hlong : 2 < output_length
  · have hblocks : (output_length - 3) / 128 < MBB_MAX_COUNT := block_lt (by omega)
    obtain ⟨mbb', htie, htied⟩ := tieMailTogether_ok hready.omb hblocks a
    refine ⟨mbb', ?_, by rw [if_pos hlong]; exact htied⟩
    rw [doIf_of_pos (by omega), get_bind, outputBlocks_eq hlong, bind_of_ok htie, if_pos hlong,
      if_pos hlong]
    rfl
  · refine ⟨a.mbb, ?_, by rw [if_neg hlong]⟩
    have hsame : { a.cqe slot with output_mailbox_msb := 0, output_mailbox_lsb := 0 } =
        a.cqe slot := by
      cases hcqe : a.cqe slot
      simp_all
    rw [doIf_of_neg (by omega), if_neg hlong, if_neg hlong, hsame, setCqe_self]
    rfl

/-! ## The whole command -/

/-- The entry of a command without its output part. -/
def CQE.ofInput (m : MEM.DmaMem) (opcode : OPCODE) (op_mod : Word) (payload : Buf)
    (payload_length : ℕ) : CQE where
  type := iowrite32be (CQE_TYPE_MASK &&& (0x7 : Word) <<< CQE_TYPE_OFFSET)
  input_length := iowrite32be (BitVec.ofNat 32 (byteLength payload_length))
  input_mailbox_msb := mailboxMsb m payload_length
  input_mailbox_lsb := mailboxLsb m payload_length
  cid := {
    opcode := iowrite32be (CID_OPCODE_MASK &&& (opcode.value <<< CID_OPCODE_OFFSET))
    op_mod := iowrite32be (CID_OP_MOD_MASK &&& op_mod)
    data := inlineData payload payload_length }

/-- The part of `createCqe` after the input. -/
def finishCqe (slot output_length : ℕ) : Exec CMD_Args ℕ := do
  writeOutput slot output_length
  writeCqe slot fun cqe => { cqe with
    output_length := iowrite32be (BitVec.ofNat 32 output_length) }
  writeCqe slot fun cqe => { cqe with ctrl := iowrite32be 1 }
  let (slot, cq) := Q.enqueue (← get).cq
  modify fun a => { a with cq := cq }
  return slot

/-- `createCqe` makes the entry in the slot at the head and puts the payload into the input mailbox,
whatever the length of the output. -/
theorem createCqe_input (hready : Ready a) (h : Fits payload payload_length 0) (opcode : OPCODE)
    (op_mod : Word) (output_length : ℕ) :
    ∃ mbb₁, InputMail a.imb_mem payload payload_length a.mbb mbb₁ ∧
      createCqe opcode op_mod payload payload_length output_length a =
        finishCqe a.cq.head (byteLength output_length) ((a.setCqe a.cq.head
          (CQE.ofInput a.imb_mem opcode op_mod payload payload_length)).setMbb mbb₁) := by
  let cqe₁ : CQE := {
    type := iowrite32be (CQE_TYPE_MASK &&& (0x7 : Word) <<< CQE_TYPE_OFFSET)
    input_length := iowrite32be (BitVec.ofNat 32 (byteLength payload_length)) }
  obtain ⟨mbb₁, hin, hmail⟩ := writeInput_ok (a := a.setCqe a.cq.head cqe₁) a.cq.head
    (hready.setCqe _) h (by rw [setCqe_cqe_self]) (by rw [setCqe_cqe_self])
    (by rw [setCqe_cqe_self])
  rw [setCqe_cqe_self, setCqe_setCqe] at hin
  refine ⟨mbb₁, hmail, ?_⟩
  unfold createCqe
  rw [get_bind]
  refine (bind_of_ok (writeCqe_apply _)).trans ?_
  refine (bind_of_ok (writeCqe_apply _)).trans ?_
  rw [setCqe_cqe_self, setCqe_setCqe]
  refine (bind_of_ok hin).trans ?_
  refine (bind_of_ok (writeCqe_apply _)).trans ?_
  rw [setMbb_setCqe, setCqe_setCqe, setMbb_cqe, setCqe_cqe_self]
  rfl

/-- `createCqe` makes the entry in the slot at the head, puts the payload into the input mailbox,
sets up the output mailbox, and moves the head on. -/
theorem createCqe_ok (hready : Ready a) (h : Fits payload payload_length output_length)
    (opcode : OPCODE) (op_mod : Word) :
    ∃ mbb₁ mbb', createCqe opcode op_mod payload payload_length output_length a =
        .ok a.cq.head { a with
          cq := (Q.enqueue a.cq).2
          cqe := Function.update a.cqe a.cq.head
            (newCqe a opcode op_mod payload payload_length output_length)
          mbb := mbb' } ∧
      InputMail a.imb_mem payload payload_length a.mbb mbb₁ ∧
      OutputMail a.omb_mem output_length mbb₁ mbb' := by
  obtain ⟨mbb₁, hmail, hcreate⟩ := createCqe_input hready
    ⟨h.payload_le, h.payload_size, Nat.zero_le _⟩ opcode op_mod output_length
  let cqe₃ : CQE := CQE.ofInput a.imb_mem opcode op_mod payload payload_length
  obtain ⟨mbb', hout, homb⟩ := writeOutput_ok (a := (a.setCqe a.cq.head cqe₃).setMbb mbb₁)
    a.cq.head ((hready.setCqe _).setMbb _) h (by rw [setMbb_cqe, setCqe_cqe_self]; rfl)
    (by rw [setMbb_cqe, setCqe_cqe_self]; rfl)
  refine ⟨mbb₁, mbb', hcreate.trans ?_, hmail, homb⟩
  unfold finishCqe
  refine (bind_of_ok hout).trans ?_
  refine (bind_of_ok (writeCqe_apply _)).trans ?_
  refine (bind_of_ok (writeCqe_apply _)).trans ?_
  simp only [setMbb_setCqe, setMbb_setMbb, setCqe_setCqe, setMbb_cqe, setCqe_cqe_self]
  rfl

/-- `createCqe` goes outside of the output mailbox when the output is longer than the mailbox, as
long as its length in bytes does not wrap. -/
theorem createCqe_error (hready : Ready a) (h : Fits payload payload_length 0)
    (hlong : 2 + OMB_MAX_DATA < output_length) (hwrap : (output_length + 2) * 4 < 2 ^ 32)
    (opcode : OPCODE) (op_mod : Word) :
    ∃ a', createCqe opcode op_mod payload payload_length output_length a =
      .error (.undefined .out_of_bounds) a' := by
  obtain ⟨mbb₁, -, hcreate⟩ := createCqe_input hready h opcode op_mod output_length
  have hbytes : byteLength output_length = (output_length + 2) * 4 := Nat.mod_eq_of_lt hwrap
  have hblocks : MBB_MAX_COUNT ≤ outputBlocks (byteLength output_length) := by
    unfold OMB_MAX_DATA MBB_MAX_COUNT at *
    rw [hbytes, outputBlocks_eq (by omega)]
    omega
  let a₁ : CMD_Args := (a.setCqe a.cq.head
    (CQE.ofInput a.imb_mem opcode op_mod payload payload_length)).setMbb mbb₁
  obtain ⟨a₂, htie⟩ := tieMailTogether_error (m := a₁.omb_mem) hblocks a₁
  have hout : writeOutput a.cq.head (byteLength output_length) a₁ =
      .error (.undefined .out_of_bounds) a₂ := by
    unfold writeOutput
    rw [doIf_of_pos (by rw [hbytes]; omega), get_bind, bind_of_error htie]
  exact ⟨a₂, hcreate.trans (bind_of_error hout)⟩

/-- `createCqe` reads beyond a payload that has fewer words than its length says. -/
theorem createCqe_overread (hsize : 2 ≤ payload.size) (hover : payload.size < payload_length)
    (hle : payload_length ≤ 2 + IMB_MAX_DATA) (opcode : OPCODE) (op_mod : Word)
    (output_length : ℕ) (a : CMD_Args) :
    ∃ a', createCqe opcode op_mod payload payload_length output_length a =
      .error (.undefined .out_of_bounds) a' := by
  have hmail : ∀ slot b, ∃ b', writeInputMail slot payload payload_length b =
      .error (.undefined .out_of_bounds) b' := fun slot b => by
    obtain ⟨b', hpack⟩ := packMail_overread (m := b.imb_mem) (n := payload_length - 2) hsize
      (by omega) (by omega) b
    exact ⟨b', (get_bind _ _).trans (bind_of_error hpack)⟩
  have hin : ∀ slot b, ∃ b', writeInput slot payload payload_length (byteLength payload_length) b =
      .error (.undefined .out_of_bounds) b' := fun slot b => by
    have hword : ∀ (i : Fin 2) (b : CMD_Args), writeData slot payload i b =
        .ok () (b.setCqe slot ((b.cqe slot).setData i (payload.word i))) := fun i b =>
      writeData_ok (Nat.lt_of_lt_of_le i.isLt hsize)
    obtain ⟨b', hb'⟩ := hmail slot _
    refine ⟨b', ?_⟩
    rw [byteLength_of_le hle]
    unfold writeInput
    rw [doIf_of_pos (by omega), doIf_of_pos (by omega), doIf_of_pos (by omega)]
    exact (bind_of_ok (hword 0 b)).trans ((bind_of_ok (hword 1 _)).trans hb')
  obtain ⟨a', ha'⟩ := hin a.cq.head _
  refine ⟨a', ?_⟩
  unfold createCqe
  refine (get_bind _ _).trans ?_
  exact (bind_of_ok (writeCqe_apply _)).trans ((bind_of_ok (writeCqe_apply _)).trans
    (bind_of_error ha'))

/-! ## Commands of any length -/

/-- What the other slots have to do with: the head, the doorbells, and their entries. -/
def CMD_Args.rest (slot : ℕ) (a : CMD_Args) : Q.Queue × List ℕ × CQE := (a.cq, a.rung, a.cqe slot)

/-- Writing a block leaves the ring. -/
theorem keeps_writeBlock (m : MEM.DmaMem) (i : ℕ) (f : MBB → MBB) (s : ℕ) :
    Keeps (CMD_Args.rest s) (writeBlock m i f) := by
  unfold writeBlock
  exact keeps_ite (keeps_modify fun _ => rfl) (keeps_throw _)

/-- Writing an entry leaves the others. -/
theorem keeps_writeCqe {s : ℕ} (hne : s ≠ slot) (f : CQE → CQE) :
    Keeps (CMD_Args.rest s) (writeCqe slot f) := by
  refine keeps_modify fun a => ?_
  unfold CMD_Args.rest
  rw [setCqe_cqe_of_ne hne]
  rfl

/-- `tie_mail_together` only writes blocks. -/
theorem keeps_tieMailTogether (m : MEM.DmaMem) (n s : ℕ) :
    Keeps (CMD_Args.rest s) (tieMailTogether m n) :=
  (keeps_forRange fun i _ => keeps_writeBlock m i _ s).bind fun _ => keeps_writeBlock m n _ s

/-- Reading the payload changes nothing. -/
theorem keeps_read (b : Buf) (i s : ℕ) : Keeps (CMD_Args.rest s) (b.read i) :=
  keeps_ite (keeps_pure _) (keeps_throw _)

/-- `pack_mail` only writes blocks. -/
theorem keeps_packMail (m : MEM.DmaMem) (payload : Buf) (start length s : ℕ) :
    Keeps (CMD_Args.rest s) (packMail m payload start length) := by
  refine (keeps_forRange fun i c => ?_).bind fun c => keeps_tieMailTogether m _ s
  exact (keeps_read payload _ s).bind fun w =>
    (keeps_writeBlock m _ _ s).bind fun _ => keeps_pure _

/-- The input of a command goes to its own entry and to the blocks. -/
theorem keeps_writeInput {s : ℕ} (hne : s ≠ slot) (payload : Buf) (payload_length length : ℕ) :
    Keeps (CMD_Args.rest s) (writeInput slot payload payload_length length) := by
  have hdata : ∀ i, Keeps (CMD_Args.rest s) (writeData slot payload i) := fun i =>
    (keeps_read payload i s).bind fun w => keeps_writeCqe hne _
  have hmail : Keeps (CMD_Args.rest s) (writeInputMail slot payload payload_length) :=
    keeps_get.bind fun a => (keeps_packMail _ payload _ _ s).bind fun _ => keeps_writeCqe hne _
  exact (keeps_doIf (hdata 0)).bind fun _ => (keeps_doIf (hdata 1)).bind fun _ => keeps_doIf hmail

/-- So does what is prepared for its output. -/
theorem keeps_writeOutput {s : ℕ} (hne : s ≠ slot) (length : ℕ) :
    Keeps (CMD_Args.rest s) (writeOutput slot length) :=
  keeps_doIf (keeps_get.bind fun _ => (keeps_tieMailTogether _ _ s).bind fun _ =>
    keeps_writeCqe hne _)

/-- What every `createCqe` that returns does, also to arguments that are not ready and with a
command that is not within the limits: it writes no other entry than the one at the head, gives that
one to the device, and moves the head on. -/
theorem createCqe_effect {opcode : OPCODE} {op_mod : Word}
    (h : createCqe opcode op_mod payload payload_length output_length a = .ok slot a') :
    slot = a.cq.head ∧ a'.cq = (Q.enqueue a.cq).2 ∧ a'.rung = a.rung ∧
      (∀ s, s ≠ a.cq.head → a'.cqe s = a.cqe s) ∧ (a'.cqe a.cq.head).ctrl = iowrite32be 1 := by
  unfold createCqe at h
  rw [get_bind] at h
  simp only [bind_eq_ok_iff] at h
  obtain ⟨_, a₁, h₁, _, a₂, h₂, _, a₃, h₃, _, a₄, h₄, _, a₅, h₅, _, a₆, h₆, _, a₇, h₇, h⟩ := h
  have hrest : ∀ s, s ≠ a.cq.head → a₇.rest s = a.rest s := fun s hne => calc
    a₇.rest s = a₆.rest s := keeps_writeCqe hne _ _ _ _ h₇
    _ = a₅.rest s := keeps_writeCqe hne _ _ _ _ h₆
    _ = a₄.rest s := keeps_writeOutput hne _ _ _ _ h₅
    _ = a₃.rest s := keeps_writeCqe hne _ _ _ _ h₄
    _ = a₂.rest s := keeps_writeInput hne _ _ _ _ _ _ h₃
    _ = a₁.rest s := keeps_writeCqe hne _ _ _ _ h₂
    _ = a.rest s := keeps_writeCqe hne _ _ _ _ h₁
  have hctrl : (a₇.cqe a.cq.head).ctrl = iowrite32be 1 := by
    cases h₇
    rw [setCqe_cqe_self]
  have hother := hrest (a.cq.head + 1) (Nat.succ_ne_self _)
  have hcq : a₇.cq = a.cq := congrArg Prod.fst hother
  have hrung : a₇.rung = a.rung := congrArg (fun r => r.2.1) hother
  obtain ⟨_, _, hget, _, _, hmodify, hret⟩ := h
  cases hget
  cases hmodify
  cases hret
  rw [hcq]
  exact ⟨rfl, rfl, hrung, fun s hne => congrArg (fun r => r.2.2) (hrest s hne), hctrl⟩

end L4Rdma.CMD
