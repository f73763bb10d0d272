import L4Rdma.Cmd.Call
import L4Rdma.Lib.Links

/-!
# The chains of the mailboxes

What `create_cqe` makes of the two mailboxes, as seen by someone who follows the next pointers.
The input mailbox is a chain of as many blocks as the payload needs, with the payload in it
(`createCqe_inputChain`). The output mailbox is a chain of as many blocks as `unpack_mail` reads
later, which are the same ones in the same order (`createCqe_outputChain`).
-/

namespace L4Rdma.CMD

open Lib Device

variable {a a' : CMD_Args} {slot : ℕ} {payload : Buf} {payload_length output_length n : ℕ}
  {m : MEM.DmaMem} {mbb mbb' : ℕ → MBB}

/-- The number of blocks for the words of a payload or an output of `n` words. The first two of them
are in the command queue entry. -/
def blockCount (n : ℕ) : ℕ := (n - 2 + 127) / 128

/-- The last block is that of the last word. -/
theorem blockCount_eq (h : 2 < n) : blockCount n = (n - 3) / 128 + 1 := by
  unfold blockCount
  omega

/-- The blocks of a chain are those that the next pointers lead to. -/
theorem Chain.visits (h : Chain m n mbb) (hlast : (mbb (blockAddr m n)).next = 0) :
    Visits (fun b => (mbb b).next) 0 m.phys (firstBlocks m (n + 1)) := by
  have hstart : blockAddr m 0 = m.phys := rfl
  rw [← hstart]
  refine visits_range h (fun k _ => ?_) hlast
  unfold blockAddr MAILBOX_ALIGN_SIZE
  omega

/-! ## The input mailbox -/

/-- The input of a command of `n` words, as it is after `create_cqe`: the first two words in the slot,
the others in the chain that starts at the address in the slot. Of the mailboxes nothing else has
been changed, except for the headers of the blocks of the output mailbox. -/
structure InputChain (a a' : CMD_Args) (slot : ℕ) (payload : Buf) (n : ℕ) : Prop where
  inline : ∀ i : Fin 2, ioread32be ((a'.cqe slot).cid.data i) = payload.word i
  visits : Visits (fun b => (a'.mbb b).next) 0
    (address (ioread32be (a'.cqe slot).input_mailbox_msb)
      (ioread32be (a'.cqe slot).input_mailbox_lsb)) (firstBlocks a.imb_mem (blockCount n))
  header : ∀ k, k < blockCount n →
    ioread32be (a'.mbb (blockAddr a.imb_mem k)).block_number = BitVec.ofNat 32 k ∧
      ioread32be (a'.mbb (blockAddr a.imb_mem k)).ctrl = 0
  words : ∀ j, j < n - 2 → mailWord a.imb_mem a'.mbb j = payload.word (2 + j)
  other_data : ∀ b d, (∀ j, j < n - 2 → b = blockAddr a.imb_mem (j / 128) → d ≠ j % 128) →
    (a'.mbb b).mailbox_data d = (a.mbb b).mailbox_data d
  other_header : ∀ b, b ∉ firstBlocks a.imb_mem (blockCount n) →
    b ∉ firstBlocks a.omb_mem MBB_MAX_COUNT → (a'.mbb b).header = (a.mbb b).header

/-- What the output part of `create_cqe` leaves as it was: the input part of the entry, the data of
all blocks, and the blocks outside of the output mailbox. -/
structure OutputOnly (slot : ℕ) (a a' : CMD_Args) : Prop where
  cid : (a'.cqe slot).cid = (a.cqe slot).cid
  msb : (a'.cqe slot).input_mailbox_msb = (a.cqe slot).input_mailbox_msb
  lsb : (a'.cqe slot).input_mailbox_lsb = (a.cqe slot).input_mailbox_lsb
  data : ∀ b, (a'.mbb b).mailbox_data = (a.mbb b).mailbox_data
  other : ∀ b, b ∉ firstBlocks a.omb_mem MBB_MAX_COUNT → a'.mbb b = a.mbb b

/-- Writing the entry's output part. -/
theorem OutputOnly.setCqe {x : CQE} (h : OutputOnly slot a a') (hcid : x.cid = (a'.cqe slot).cid)
    (hmsb : x.input_mailbox_msb = (a'.cqe slot).input_mailbox_msb)
    (hlsb : x.input_mailbox_lsb = (a'.cqe slot).input_mailbox_lsb) :
    OutputOnly slot a (a'.setCqe slot x) := by
  refine ⟨?_, ?_, ?_, h.data, h.other⟩
  · rw [setCqe_cqe_self, hcid, h.cid]
  · rw [setCqe_cqe_self, hmsb, h.msb]
  · rw [setCqe_cqe_self, hlsb, h.lsb]

/-- The output part returns for every output that fits into the mailbox. -/
theorem writeOutput_ends (slot : ℕ) (homb : MailboxOk a.omb_mem) (output_length : ℕ) :
    Ends (writeOutput slot (byteLength output_length)) a
      (fun _ a' => a'.cq = a.cq ∧ OutputOnly slot a a')
      fun _ _ => 2 + OMB_MAX_DATA < output_length := by
  have hsame : OutputOnly slot a a := ⟨rfl, rfl, rfl, fun _ => rfl, fun _ _ => rfl⟩
  unfold writeOutput doIf
  split_ifs with hlong
  · refine Ends.bind_of_ok (get_apply a) ?_
    rcases Nat.lt_or_ge (outputBlocks (byteLength output_length)) MBB_MAX_COUNT with hlt | hge
    · obtain ⟨mbb', htie, htied⟩ := tieMailTogether_ok homb hlt a
      have hblocks : OutputOnly slot a { a with mbb := mbb' } :=
        ⟨rfl, rfl, rfl, htied.data, fun b hb => htied.other b fun k hk hbk =>
          hb (mem_firstBlocks.mpr ⟨k, Nat.lt_of_le_of_lt hk hlt, hbk.symm⟩)⟩
      exact Ends.bind_of_ok htie (ends_of_ok (writeCqe_apply _)
        ⟨rfl, hblocks.setCqe rfl rfl rfl⟩)
    · -- Only an output that is too long needs more blocks than the mailbox has.
      obtain ⟨a', htie⟩ := tieMailTogether_error (m := a.omb_mem) hge a
      refine ends_of_error (bind_of_error htie) ?_
      by_contra hfits
      have hle : output_length ≤ 2 + OMB_MAX_DATA := Nat.le_of_not_lt hfits
      rw [byteLength_of_le hle] at hge hlong
      rw [outputBlocks_eq (by omega)] at hge
      unfold OMB_MAX_DATA MBB_MAX_COUNT at *
      omega
  · exact ends_pure ⟨rfl, hsame⟩

/-- So does the part of `create_cqe` after the input. It returns the slot at the head. -/
theorem finishCqe_ends (slot : ℕ) (homb : MailboxOk a.omb_mem) (output_length : ℕ) :
    Ends (finishCqe slot (byteLength output_length)) a
      (fun slot' a' => slot' = a.cq.head ∧ OutputOnly slot a a')
      fun _ _ => 2 + OMB_MAX_DATA < output_length := by
  unfold finishCqe
  refine (writeOutput_ends slot homb output_length).bind fun _ a₁ h => ?_
  obtain ⟨hcq, h⟩ := h
  refine Ends.bind_of_ok (writeCqe_apply _) (Ends.bind_of_ok (writeCqe_apply _) ?_)
  refine Ends.bind_of_ok (get_apply _) (Ends.bind_of_ok (modify_apply _ _) (ends_pure ?_))
  have hwritten : OutputOnly slot a ((a₁.setCqe slot _).setCqe slot _) :=
    (h.setCqe (x := { a₁.cqe slot with
      output_length := iowrite32be (BitVec.ofNat 32 (byteLength output_length)) })
      rfl rfl rfl).setCqe (x := {
        (a₁.setCqe slot { a₁.cqe slot with
          output_length := iowrite32be (BitVec.ofNat 32 (byteLength output_length)) }).cqe slot with
        ctrl := iowrite32be 1 }) rfl rfl rfl
  rw [← hcq]
  exact ⟨rfl, hwritten.cid, hwritten.msb, hwritten.lsb, hwritten.data, hwritten.other⟩

/-- `create_cqe` puts a payload of more than two words into a chain of blocks, whatever the length of
the output. It returns for every output that fits into the output mailbox. -/
theorem createCqe_inputChain (a : CMD_Args) (hready : Ready a) (payload : Buf) (n : ℕ) (hn : 3 ≤ n)
    (hle : n ≤ 2 + IMB_MAX_DATA) (hsize : n ≤ payload.size) (opcode : OPCODE) (op_mod : Word)
    (output_length : ℕ) :
    Ends (createCqe opcode op_mod payload n output_length) a
      (fun slot a' => InputChain a a' slot payload n)
      fun _ _ => 2 + OMB_MAX_DATA < output_length := by
  obtain ⟨mbb₁, hmail, hcreate⟩ := createCqe_input hready ⟨hle, hsize, Nat.zero_le _⟩ opcode op_mod
    output_length
  have hfinish := finishCqe_ends (a := (a.setCqe a.cq.head
    (CQE.ofInput a.imb_mem opcode op_mod payload n)).setMbb mbb₁) a.cq.head hready.omb output_length
  refine Ends.congr hcreate (hfinish.mono ?_ fun _ _ h => h)
  intro slot a' h
  obtain ⟨rfl, h⟩ := h
  have hlong : 2 < n := hn
  rw [InputMail, if_pos hlong] at hmail
  obtain ⟨mbb₀, hpacked, htied⟩ := hmail
  have hlast : (n - 3) / 128 < MBB_MAX_COUNT := block_lt (by omega)
  have hcount : blockCount n = (n - 3) / 128 + 1 := blockCount_eq hlong
  -- The output part does not touch the blocks of the input mailbox.
  have hsame : ∀ k, k ≤ (n - 3) / 128 →
      a'.mbb (blockAddr a.imb_mem k) = mbb₁ (blockAddr a.imb_mem k) := fun k hk => by
    refine h.other _ fun hmem => ?_
    obtain ⟨i, hi, haddr⟩ := mem_firstBlocks.mp hmem
    exact hready.disjoint.blockAddr_ne (Nat.lt_of_le_of_lt hk hlast) hi haddr.symm
  -- What is shown of the entry was there before the output part, which does not touch it.
  have hcqe := @setCqe_cqe_self a a.cq.head (CQE.ofInput a.imb_mem opcode op_mod payload n)
  refine ⟨fun i => ?_, ?_, fun k hk => ⟨?_, ?_⟩, fun j hj => ?_, fun b d hd => ?_,
    fun b hb hb' => ?_⟩
  · show ioread32be ((a'.cqe a.cq.head).cid.data i) = _
    rw [h.cid, setMbb_cqe, hcqe]
    show ioread32be (inlineData payload n i) = _
    rw [inlineData, if_pos (Nat.lt_trans i.isLt hlong), ioread32be_iowrite32be]
  · -- The entry points to the first block, and the next pointers lead through the others to the end.
    show Visits _ 0 (address (ioread32be (a'.cqe a.cq.head).input_mailbox_msb)
      (ioread32be (a'.cqe a.cq.head).input_mailbox_lsb)) _
    rw [h.msb, h.lsb, setMbb_cqe, hcqe, hcount]
    show Visits _ 0 (address (ioread32be (mailboxMsb a.imb_mem n))
      (ioread32be (mailboxLsb a.imb_mem n))) _
    rw [address_mailbox hready.imb hlong]
    refine Chain.visits (fun k hk => ?_) ?_
    · rw [hsame k (Nat.le_of_lt hk), htied.chain k hk]
    · rw [hsame _ (Nat.le_refl _), htied.last]
  · rw [hcount] at hk
    rw [hsame k (Nat.le_of_lt_succ hk), htied.number k (Nat.le_of_lt_succ hk)]
  · rw [hcount] at hk
    rw [hsame k (Nat.le_of_lt_succ hk), htied.ctrl k (Nat.le_of_lt_succ hk)]
    exact swapEndian_zero
  · -- The words are where they have been packed, since tying the blocks together leaves the data.
    rw [mailWord, h.data, setMbb_mbb, htied.data]
    exact hpacked.data j hj
  · rw [h.data, setMbb_mbb, htied.data]
    exact hpacked.other b d hd
  · -- A block that is not in the chain has been touched by neither of the two.
    rw [h.other b hb', setMbb_mbb, htied.other b fun k hk hbk => hb ?_, hpacked.header]
    rw [hcount]
    exact mem_firstBlocks.mpr ⟨k, Nat.lt_succ_of_le hk, hbk.symm⟩

/-- A payload of 131 words, the last of which is alone in the second block. -/
theorem createCqe_twoBlocks : ∃ slot a',
    createCqe .MANAGE_PAGES 1 ⟨131, BitVec.ofNat 32⟩ 131 2 (freshArgs 32) = .ok slot a' ∧
      InputChain (freshArgs 32) a' slot ⟨131, BitVec.ofNat 32⟩ 131 ∧ blockCount 131 = 2 := by
  have hready : Ready (freshArgs 32) := (freshArgs_idle (by norm_num) (by norm_num)).toReady
  have hends := createCqe_inputChain (freshArgs 32) hready ⟨131, BitVec.ofNat 32⟩ 131 (by norm_num)
    (by norm_num) (Nat.le_refl _) .MANAGE_PAGES 1 2
  rcases hends.cases with ⟨slot, a', hok, h⟩ | ⟨e, a', -, hlong⟩
  · exact ⟨slot, a', hok, h, rfl⟩
  · exact absurd hlong (by norm_num)

/-! ## The output mailbox -/

/-- The output mailbox for `n` words, as it is after `create_cqe`: a chain that starts at the address
in the slot and has as many blocks as `unpack_mail` reads, which are the blocks that it reads. So
what the device puts there is what `get_cmd_output` returns. -/
structure OutputChain (a' : CMD_Args) (slot n : ℕ) : Prop where
  count : outputBlocks (byteLength n) + 1 = blockCount n
  visits : Visits (fun b => (a'.mbb b).next) 0
    (address (ioread32be (a'.cqe slot).output_mailbox_msb)
      (ioread32be (a'.cqe slot).output_mailbox_lsb)) (firstBlocks a'.omb_mem (blockCount n))
  reads : ∀ a₂ output, n ≤ output.size → ∃ output',
    unpackMail a'.omb_mem output 2 (n - 2) a₂ = .ok output' a₂ ∧
      Reads a'.omb_mem output 2 (n - 2) a₂ (firstBlocks a'.omb_mem (blockCount n)) output'
  returns : ∀ (r : Reply) output, n ≤ output.size → ∃ output',
    getCmdOutput slot output n (complete a' slot r) = .ok output' (complete a' slot r) ∧
      output'.size = output.size ∧ (∀ i, i < n → output'.word i = r.output i) ∧
      ∀ i, n ≤ i → output'.word i = output.word i

/-- `create_cqe` makes a chain of the output mailbox that fits what `get_cmd_output` reads. -/
theorem createCqe_outputChain (a : CMD_Args) (hready : Ready a) (payload : Buf) (payload_length n : ℕ)
    (hn : 3 ≤ n) (hfits : Fits payload payload_length n) (opcode : OPCODE) (op_mod : Word) :
    ∃ slot a', createCqe opcode op_mod payload payload_length n a = .ok slot a' ∧
      OutputChain a' slot n := by
  obtain ⟨mbb₁, mbb', hcreate, -, hmail⟩ := createCqe_ok hready hfits opcode op_mod
  have hlong : 2 < n := hn
  have hle : n ≤ 2 + OMB_MAX_DATA := hfits.output_le
  have hcount : blockCount n = (n - 3) / 128 + 1 := blockCount_eq hlong
  rw [OutputMail, if_pos hlong] at hmail
  refine ⟨_, _, hcreate, ?_⟩
  -- Only the entry and the output mailbox matter from here on.
  generalize ha' : ({ a with
    cq := (Q.enqueue a.cq).2
    cqe := Function.update a.cqe a.cq.head (newCqe a opcode op_mod payload payload_length n)
    mbb := mbb' } : CMD_Args) = a'
  have homb : a'.omb_mem = a.omb_mem := ha' ▸ rfl
  have hmbb : a'.mbb = mbb' := ha' ▸ rfl
  have hcqe : a'.cqe a.cq.head = newCqe a' opcode op_mod payload payload_length n := by
    rw [← ha']
    exact Function.update_self _ _ _
  have hok : MailboxOk a'.omb_mem := homb ▸ hready.omb
  have hchain : Chain a'.omb_mem ((n - 3) / 128) a'.mbb := by
    rw [homb, hmbb]
    exact hmail.chain
  refine ⟨?_, ?_, fun a₂ output hsize => ?_, fun r output hsize => ?_⟩
  · -- The number of blocks that `create_cqe` computes is the number of blocks that the words need.
    rw [byteLength_of_le hle, outputBlocks_eq hlong, hcount]
  · rw [hcqe, hcount]
    show Visits _ 0 (address (ioread32be (mailboxMsb a'.omb_mem n))
      (ioread32be (mailboxLsb a'.omb_mem n))) _
    rw [address_mailbox hok hlong]
    refine hchain.visits ?_
    rw [homb, hmbb]
    exact hmail.last
  · have hbuf : 2 + (n - 2) ≤ output.size := by omega
    -- `unpack_mail` reads just these blocks.
    obtain ⟨output', hunpack, hreads, -⟩ := unpackMail_reads (m := a'.omb_mem) (by omega) hbuf a₂
    exact ⟨output', hunpack, hreads⟩
  · -- What the device replies comes back: two words from the entry, and the others from the blocks.
    have hanswered := complete_answered (r := r) hok hfits hcqe fun _ => hchain
    have hbuf : 2 + (n - 2) ≤ (inlineOutput ((complete a' a.cq.head r).cqe a.cq.head) output).size :=
      (show 2 + (n - 2) ≤ output.size by omega)
    have hunpack := unpackMail_reads (m := (complete a' a.cq.head r).omb_mem) (by omega) hbuf
      (complete a' a.cq.head r)
    obtain ⟨output', hunpack, -, hunpacked, hafter⟩ := hunpack
    refine ⟨output', (getCmdOutput_long hlong hsize _ _).trans hunpack, hunpacked.size,
      fun i hi => ?_, fun i hi => ?_⟩
    · rcases Nat.lt_or_ge i 2 with hlt | hge
      · rw [hunpacked.before i hlt, inlineOutput_word _ _ ⟨i, hlt⟩]
        exact hanswered.inline ⟨i, hlt⟩ hi
      · have hword := hunpacked.words (i - 2) (by omega)
        rw [hanswered.mail (i - 2) (by omega), show 2 + (i - 2) = i by omega] at hword
        exact hword
    · rw [hafter i (by omega), inlineOutput_of_ge (by omega)]

/-- The chain for an output of 131 words, the last of which is alone in the second block. -/
theorem outputChain_twoBlocks : ∃ slot a',
    createCqe .QUERY_HCA_CAP 1 (Buf.ofList []) 0 131 (freshArgs 32) = .ok slot a' ∧
      OutputChain a' slot 131 ∧ blockCount 131 = 2 := by
  have hready : Ready (freshArgs 32) := (freshArgs_idle (by norm_num) (by norm_num)).toReady
  obtain ⟨slot, a', hok, h⟩ := createCqe_outputChain (freshArgs 32) hready (Buf.ofList []) 0 131
    (by norm_num) ⟨by norm_num, Nat.le_refl 0, by norm_num⟩ .QUERY_HCA_CAP 1
  exact ⟨slot, a', hok, h, rfl⟩

end L4Rdma.CMD
