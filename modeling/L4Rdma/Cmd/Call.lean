import L4Rdma.Cmd.Device

/-!
# Calling the device

One thread that issues a command creates it, rings the doorbell of its slot, waits for the device,
and takes the output from the slot and the output mailbox. For the thread this is a synchronous
call: the device sees exactly the command that was passed, and the output is exactly the device's
reply (`issue_cases`, `getCmdOutput_ok`). A sequence of such calls through the same ring and the same
mailboxes is a run of the device on its own (`callAll`).
-/

namespace L4Rdma.CMD

open Lib Device

variable {δ : Type}

/-- The command arguments as a part of the world. -/
def World.argsLens : Lens (World δ) CMD_Args where
  view := World.args
  set a w := { w with args := a }

/-- The lines that issue a command: `create_cqe`, `ring_doorbell` and `validate_cqe`. The device
executes the command while `validate_cqe` polls. -/
def issue (D : HCA δ) (opcode : OPCODE) (op_mod : Word) (payload : Buf)
    (payload_length output_length : ℕ) : Exec (World δ) ℕ := do
  let slot ← World.argsLens.zoom (createCqe opcode op_mod payload payload_length output_length)
  World.argsLens.zoom (ringDoorbell [slot])
  modify (World.serve D)
  World.argsLens.zoom (validateCqe [slot])
  return slot

/-- Command arguments that are ready, with no doorbell rung. -/
structure Idle (a : CMD_Args) : Prop extends Ready a where
  rung : a.rung = []

/-- Whether command arguments are ready for a command can be evaluated. -/
instance (a : CMD_Args) : Decidable (Idle a) :=
  decidable_of_iff (Ready a ∧ a.rung = []) ⟨fun ⟨hready, hrung⟩ => ⟨hready, hrung⟩, fun h => ⟨h.toReady, h.rung⟩⟩

/-- The ring and the mailboxes are where they were. -/
structure SamePlace (a a' : CMD_Args) : Prop where
  size : a'.cq.size = a.cq.size
  imb_mem : a'.imb_mem = a.imb_mem
  omb_mem : a'.omb_mem = a.omb_mem

variable {a a' : CMD_Args} {slot : ℕ} {payload : Buf} {payload_length output_length : ℕ}

/-- Command arguments in the same place, with a head inside the ring, are ready. -/
theorem Ready.samePlace (h : Ready a) (hsame : SamePlace a a') (hhead : a'.cq.head < a'.cq.size) :
    Ready a' where
  size_pos := hsame.size ▸ h.size_pos
  size_le := hsame.size ▸ h.size_le
  head := hhead
  imb := hsame.imb_mem ▸ h.imb
  omb := hsame.omb_mem ▸ h.omb
  disjoint := hsame.imb_mem ▸ hsame.omb_mem ▸ h.disjoint

/-! ## Ringing the doorbell -/

/-- `ringDoorbell` writes the sum of the slots' bits, and the device notes the bits that are set. -/
theorem ringDoorbell_run {slots : List ℕ} (hlt : ∀ s ∈ slots, s < 32) (a : CMD_Args) :
    ringDoorbell slots a = .ok () { a with
      dbv := iowrite32be (slots.map fun s => (1 : Word) <<< s).sum
      rung := a.rung ++ (List.range 32).filter
        fun i => (slots.map fun s => (1 : Word) <<< s).sum.getLsbD i } := by
  have hno : ¬ ∃ s ∈ slots, s ≥ 32 := by
    rintro ⟨s, hs, hge⟩
    exact Nat.not_lt_of_le hge (hlt s hs)
  unfold ringDoorbell
  exact (bind_of_ok (doIf_of_neg hno _ a)).trans (modify_apply _ a)

/-- The doorbell vector of one slot has the slot's bit set. -/
theorem filter_doorbell (h : slot < 32) :
    (List.range 32).filter (fun i => ([slot].map fun s => (1 : Word) <<< s).sum.getLsbD i) =
      [slot] := by
  interval_cases slot <;> rfl

/-- `ringDoorbell` rings the doorbell of a slot. -/
theorem ringDoorbell_ok (h : slot < 32) (a : CMD_Args) :
    ringDoorbell [slot] a = .ok () { a with
      dbv := iowrite32be ([slot].map fun s => (1 : Word) <<< s).sum
      rung := a.rung ++ [slot] } := by
  have hlt : ∀ s ∈ [slot], s < 32 := fun s hs => (List.mem_singleton.mp hs).trans_lt h
  rw [ringDoorbell_run hlt, filter_doorbell h]

/-! ## Validating the entry -/

/-- The status that the device writes leaves the ownership bit clear. -/
theorem ownership_clear (status : Word) :
    status &&& CQE_STATUS_MASK &&& CQE_OWNERSHIP_MASK = 0 := by
  rw [BitVec.and_assoc, show CQE_STATUS_MASK &&& CQE_OWNERSHIP_MASK = 0#32 from rfl]
  exact BitVec.and_zero

/-- An answered entry is back in software, so polling it ends at once. -/
theorem pollOwnership_ok {r : Reply} (h : Answered a slot output_length r) :
    pollOwnership slot a = .ok () a := by
  unfold pollOwnership
  rw [get_bind, h.ctrl, ioread32be_iowrite32be, ownership_clear]
  exact doIf_of_neg (by simp) _ a

/-- A check of a status returns or throws, and does so only if the status is not 0. -/
theorem check_cases (status : Word) (what : String) (a : CMD_Args) :
    (doIf (status ≠ 0) (throw (.thrown what)) : Exec CMD_Args Unit) a = .ok () a ∨
      status ≠ 0 ∧ (doIf (status ≠ 0) (throw (.thrown what)) : Exec CMD_Args Unit) a =
        .error (.thrown what) a := by
  by_cases hs : status = 0
  · exact .inl (doIf_of_neg (not_not_intro hs) _ a)
  · refine .inr ⟨hs, ?_⟩
    rw [doIf_of_pos hs]
    rfl

/-- `validateCqe` does not wait for the slot of an answered command. It returns, or it throws
because of a status that the device reports. -/
theorem validateCqe_cases {r : Reply} (h : Answered a slot output_length r) :
    validateCqe [slot] a = .ok () a ∨
      (¬ r.Ok ∧ ∃ what, validateCqe [slot] a = .error (.thrown what) a) := by
  have hvalidate : validateCqe [slot] a =
      (checkCqeStatus slot >>= fun _ => checkCodStatus slot >>= fun _ => validateCqe []) a :=
    bind_of_ok (pollOwnership_ok h)
  have hcqe : r.cqe_status = 0 → (ioread32be (a.cqe slot).ctrl &&& CQE_STATUS_MASK) >>>
      CQE_STATUS_OFFSET = 0 := fun hr => by
    rw [h.ctrl, ioread32be_iowrite32be, hr]
    rfl
  have hcod : r.cod_status = 0 → (ioread32be (a.cqe slot).cod.status &&& COD_STATUS_MASK) >>>
      COD_STATUS_OFFSET = 0 := fun hr => by
    rw [h.status, ioread32be_iowrite32be, hr]
    rfl
  rw [hvalidate]
  rcases check_cases _ "CQE Error" a with hok | ⟨hne, herr⟩
  · have hfirst : checkCqeStatus slot a = .ok () a := hok
    rw [bind_of_ok hfirst]
    rcases check_cases _ "COD Error" a with hok' | ⟨hne, herr⟩
    · have hsecond : checkCodStatus slot a = .ok () a := hok'
      exact .inl (bind_of_ok hsecond)
    · have hsecond : checkCodStatus slot a = .error (.thrown "COD Error") a := herr
      exact .inr ⟨fun hr => hne (hcod hr.2), _, bind_of_error hsecond⟩
  · have hfirst : checkCqeStatus slot a = .error (.thrown "CQE Error") a := herr
    exact .inr ⟨fun hr => hne (hcqe hr.1), _, bind_of_error hfirst⟩

/-- It throws when the device reports an error in the entry. -/
theorem validateCqe_rejected {r : Reply} (h : Answered a slot output_length r)
    (hr : r.cqe_status = 1) : validateCqe [slot] a = .error (.thrown "CQE Error") a := by
  have hstatus : (ioread32be (a.cqe slot).ctrl &&& CQE_STATUS_MASK) >>> CQE_STATUS_OFFSET ≠ 0 := by
    rw [h.ctrl, ioread32be_iowrite32be, hr]
    decide
  have hcheck : checkCqeStatus slot a = .error (.thrown "CQE Error") a := by
    unfold checkCqeStatus
    rw [get_bind, doIf_of_pos hstatus]
    rfl
  have hvalidate : validateCqe [slot] a =
      (checkCqeStatus slot >>= fun _ => checkCodStatus slot >>= fun _ => validateCqe []) a :=
    bind_of_ok (pollOwnership_ok h)
  rw [hvalidate, bind_of_error hcheck]

/-! ## Issuing a command -/

/-- The words that `createCqe` prepares the output mailbox for are in a chain. -/
theorem OutputMail.chain {m : MEM.DmaMem} {mbb mbb' : ℕ → MBB}
    (h : OutputMail m output_length mbb mbb') (hlong : 2 < output_length) :
    Chain m ((output_length - 3) / 128) mbb' := by
  rw [OutputMail, if_pos hlong] at h
  exact h.chain

/-- The world after the device has executed the command in a slot whose doorbell has been rung. -/
theorem World.serve_eq (D : HCA δ) (w : World δ) (hrung : w.args.rung = [slot]) :
    w.serve D = World.execSlot D { w with args := { w.args with rung := [] } } slot := by
  unfold World.serve
  rw [hrung]
  rfl

/-- Issuing a command comes to `validate_cqe`, with the reply of the device to exactly that command in
the slot. The command arguments stay ready for the next command. -/
theorem issue_answered (D : HCA δ) {w : World δ} (hidle : Idle w.args)
    (hfits : Fits payload payload_length output_length) (opcode : OPCODE) (op_mod : Word) :
    let c := command opcode op_mod payload payload_length output_length
    let r := (D.exec w.dev c).2
    ∃ w' : World δ, w'.dev = (D.exec w.dev c).1 ∧ w'.seen = w.seen ++ [c] ∧ Idle w'.args ∧
      SamePlace w.args w'.args ∧ Answered w'.args w.args.cq.head output_length r ∧
      issue D opcode op_mod payload payload_length output_length w =
        (World.argsLens.zoom (validateCqe [w.args.cq.head]) >>= fun _ => pure w.args.cq.head) w' := by
  intro c r
  have hready := hidle.toReady
  obtain ⟨mbb₁, mbb', hcreate, hin, hout⟩ := createCqe_ok hready hfits opcode op_mod
  have hlt : w.args.cq.head < 32 := Nat.lt_of_lt_of_le hready.head hready.size_le
  -- The arguments while the device executes the command.
  let a : CMD_Args := { w.args with
    cq := (Q.enqueue w.args.cq).2
    cqe := Function.update w.args.cqe w.args.cq.head
      (newCqe w.args opcode op_mod payload payload_length output_length)
    mbb := mbb'
    dbv := iowrite32be ([w.args.cq.head].map fun s => (1 : Word) <<< s).sum
    rung := [] }
  have hcqe : a.cqe w.args.cq.head =
      newCqe a opcode op_mod payload payload_length output_length := Function.update_self _ _ _
  have hholds : Holds a.imb_mem payload payload_length a.mbb :=
    hin.holds.outputMail hready.disjoint hfits.payload_le hfits.output_le hout
  -- The device reads the command from the entry and from the input mailbox.
  have hread : readCommand a w.args.cq.head = c := readCommand_eq hready.imb hfits hcqe hholds
  let w' : World δ := ⟨complete a w.args.cq.head r, (D.exec w.dev c).1, w.seen ++ [c]⟩
  -- Its reply goes to the entry and to the chain that `create_cqe` has made.
  have hanswered : Answered w'.args w.args.cq.head output_length r :=
    complete_answered hready.omb hfits hcqe hout.chain
  have hsame : SamePlace w.args w'.args := ⟨rfl, rfl, rfl⟩
  have hidle' : Idle w'.args :=
    ⟨hready.samePlace hsame (Q.enqueue_head_lt hready.size_pos), rfl⟩
  -- This is all that ringing the doorbell leads to.
  have hexec : World.execSlot D { w with args := a } w.args.cq.head = w' := by
    unfold World.execSlot
    simp only [hread, w', r]
  have hserve : World.serve D { w with args := { a with rung := [w.args.cq.head] } } = w' :=
    (World.serve_eq D _ rfl).trans hexec
  have hissue : issue D opcode op_mod payload payload_length output_length w =
      (World.argsLens.zoom (validateCqe [w.args.cq.head]) >>= fun _ => pure w.args.cq.head) w' := by
    unfold issue
    refine (bind_of_ok (Lens.zoom_of_ok hcreate)).trans ?_
    refine (bind_of_ok (Lens.zoom_of_ok (ringDoorbell_ok hlt _))).trans ?_
    rw [modify_bind, ← hserve]
    simp only [World.argsLens, hidle.rung, List.nil_append, a]
  exact ⟨w', rfl, rfl, hidle', hsame, hanswered, hissue⟩

/-- Issuing a command returns its slot, with the reply of the device to exactly that command in
place, or throws because of a status that the device reports. The command arguments stay ready for
the next command. -/
theorem issue_cases (D : HCA δ) {w : World δ} (hidle : Idle w.args)
    (hfits : Fits payload payload_length output_length) (opcode : OPCODE) (op_mod : Word) :
    let c := command opcode op_mod payload payload_length output_length
    let r := (D.exec w.dev c).2
    ∃ w' : World δ, w'.dev = (D.exec w.dev c).1 ∧ w'.seen = w.seen ++ [c] ∧ Idle w'.args ∧
      SamePlace w.args w'.args ∧ Answered w'.args w.args.cq.head output_length r ∧
      (issue D opcode op_mod payload payload_length output_length w = .ok w.args.cq.head w' ∨
        (¬ r.Ok ∧ ∃ what, issue D opcode op_mod payload payload_length output_length w =
          .error (.thrown what) w')) := by
  intro c r
  obtain ⟨w', hdev, hseen, hidle', hsame, hanswered, hissue⟩ :=
    issue_answered D hidle hfits opcode op_mod
  refine ⟨w', hdev, hseen, hidle', hsame, hanswered, ?_⟩
  rcases validateCqe_cases hanswered with hok | ⟨hne, what, herr⟩
  · exact .inl (hissue.trans (bind_of_ok (Lens.zoom_of_ok hok)))
  · exact .inr ⟨hne, what, hissue.trans (bind_of_error (Lens.zoom_of_error herr))⟩

/-- Issuing a command throws when the device reports an error in the entry. -/
theorem issue_rejected (D : HCA δ) {w : World δ} (hidle : Idle w.args)
    (hfits : Fits payload payload_length output_length) (opcode : OPCODE) (op_mod : Word)
    (hr : (D.exec w.dev (command opcode op_mod payload payload_length output_length)).2.cqe_status = 1) :
    ∃ w', issue D opcode op_mod payload payload_length output_length w =
      .error (.thrown "CQE Error") w' := by
  obtain ⟨w', -, -, -, -, hanswered, hissue⟩ := issue_answered D hidle hfits opcode op_mod
  have hvalidate := validateCqe_rejected hanswered hr
  exact ⟨_, hissue.trans (bind_of_error (Lens.zoom_of_error hvalidate))⟩

/-- Issuing a command stops where `create_cqe` does. -/
theorem issue_error (D : HCA δ) {w : World δ} {opcode : OPCODE} {op_mod : Word} {e : Stop}
    (h : createCqe opcode op_mod payload payload_length output_length w.args = .error e a) :
    issue D opcode op_mod payload payload_length output_length w =
      .error e { w with args := a } := by
  unfold issue
  exact bind_of_error (Lens.zoom_of_error h)

/-! ## Taking the output -/

/-- An output array with the words of a slot. -/
def inlineOutput (cqe : CQE) (output : Buf) : Buf where
  size := output.size
  word := Function.update (Function.update output.word 0 (ioread32be (cqe.cod.output 0))) 1
    (ioread32be (cqe.cod.output 1))

/-- The first two words of the output are those in the entry. -/
theorem inlineOutput_word (cqe : CQE) (output : Buf) :
    ∀ i : Fin 2, (inlineOutput cqe output).word i = ioread32be (cqe.cod.output i) := by
  unfold inlineOutput
  refine Fin.forall_fin_two.mpr ⟨?_, ?_⟩
  · simp
  · simp

/-- The other words stay. -/
theorem inlineOutput_of_ge {cqe : CQE} {output : Buf} {i : ℕ} (hi : 2 ≤ i) :
    (inlineOutput cqe output).word i = output.word i :=
  (Function.update_of_ne (by omega) _ _).trans (Function.update_of_ne (by omega) _ _)

/-- `get_cmd_output` for a long output: the words of the slot, and then those of the mailbox. -/
theorem getCmdOutput_long {n : ℕ} {output : Buf} (hlong : 2 < n) (hsize : n ≤ output.size) (slot : ℕ)
    (a : CMD_Args) : getCmdOutput slot output n a =
      unpackMail a.omb_mem (inlineOutput (a.cqe slot) output) 2 (n - 2) a := by
  let output₁ : Buf := { output with
    word := Function.update output.word 0 (ioread32be ((a.cqe slot).cod.output 0)) }
  have hwrite₀ : output.write 0 (ioread32be ((a.cqe slot).cod.output 0)) a = .ok output₁ a :=
    Buf.write_of_lt (by omega) _ a
  have hwrite₁ : output₁.write 1 (ioread32be ((a.cqe slot).cod.output 1)) a =
      .ok (inlineOutput (a.cqe slot) output) a :=
    Buf.write_of_lt (b := output₁) (show 1 < output.size by omega) _ a
  unfold getCmdOutput
  rw [get_bind, if_neg (show ¬ n = 0 by omega), bind_of_ok hwrite₀,
    if_pos (show n > 1 by omega), bind_of_ok hwrite₁, if_pos hlong]

/-- `getCmdOutput` puts the words of the slot and of the output mailbox into the output array. -/
theorem getCmdOutput_words {output : Buf} (hle : output_length ≤ 2 + OMB_MAX_DATA)
    (hsize : output_length ≤ output.size) (slot : ℕ) (a : CMD_Args) :
    ∃ output', getCmdOutput slot output output_length a = .ok output' a ∧
      output'.size = output.size ∧
      (∀ i : Fin 2, i.val < output_length →
        output'.word i = ioread32be ((a.cqe slot).cod.output i)) ∧
      ∀ j, j < output_length - 2 → output'.word (2 + j) = mailWord a.omb_mem a.mbb j := by
  rcases Nat.lt_or_ge 2 output_length with hlong | hshort
  · -- A long output: the words after the first two are in the mailbox.
    have hmailLength : output_length - 2 ≤ OMB_MAX_DATA := by omega
    have hbuf : 2 + (output_length - 2) ≤ (inlineOutput (a.cqe slot) output).size := by
      show 2 + (output_length - 2) ≤ output.size
      omega
    obtain ⟨output', hunpack, -, hunpacked, -⟩ :=
      unpackMail_reads (m := a.omb_mem) hmailLength hbuf a
    refine ⟨output', (getCmdOutput_long hlong hsize slot a).trans hunpack, hunpacked.size,
      fun i _ => ?_, hunpacked.words⟩
    rw [hunpacked.before i i.isLt, inlineOutput_word]
  -- Otherwise no word is in the mailbox.
  have hmail : ∀ {output' : Buf}, ∀ j, j < output_length - 2 →
      output'.word (2 + j) = mailWord a.omb_mem a.mbb j := fun j hj => by omega
  unfold getCmdOutput
  rw [get_bind]
  rcases Nat.eq_zero_or_pos output_length with hzero | hpos
  · refine ⟨output, by rw [if_pos hzero]; rfl, rfl, fun i hi => ?_, hmail⟩
    omega
  -- The first word of the entry is part of any output that is not empty, and the second one of any longer
  -- one.
  let w₀ := ioread32be ((a.cqe slot).cod.output 0)
  let output₁ : Buf := { output with word := Function.update output.word 0 w₀ }
  have hwrite₀ : output.write 0 w₀ a = .ok output₁ a := Buf.write_of_lt (by omega) _ a
  rw [if_neg (Nat.ne_of_gt hpos), bind_of_ok hwrite₀]
  by_cases hone : output_length > 1
  · have hwrite₁ : output₁.write 1 (ioread32be ((a.cqe slot).cod.output 1)) a =
        .ok (inlineOutput (a.cqe slot) output) a :=
      Buf.write_of_lt (b := output₁) (Nat.lt_of_lt_of_le hone hsize) _ a
    rw [if_pos hone, bind_of_ok hwrite₁]
    refine ⟨inlineOutput (a.cqe slot) output, by rw [if_neg (Nat.not_lt.mpr hshort)]; rfl, rfl,
      fun i _ => inlineOutput_word _ _ i, hmail⟩
  · rw [if_neg hone]
    refine ⟨output₁, rfl, rfl, fun i hi => ?_, hmail⟩
    obtain rfl : i = 0 := Fin.ext (by show i.val = 0; omega)
    exact Function.update_self 0 w₀ output.word

/-- The output of an answered command is the device's reply. -/
theorem getCmdOutput_ok {r : Reply} {output : Buf} (h : Answered a slot output_length r)
    (hle : output_length ≤ 2 + OMB_MAX_DATA) (hsize : output_length ≤ output.size) :
    ∃ output', getCmdOutput slot output output_length a = .ok output' a ∧
      output'.size = output.size ∧ ∀ i, i < output_length → output'.word i = r.output i := by
  obtain ⟨output', hget, hsize', hinline, hmail⟩ := getCmdOutput_words hle hsize slot a
  refine ⟨output', hget, hsize', fun i hi => ?_⟩
  rcases Nat.lt_or_ge i 2 with hlt | hge
  · exact (hinline ⟨i, hlt⟩ hi).trans (h.inline ⟨i, hlt⟩ hi)
  · have hi' : i - 2 < output_length - 2 := by omega
    have hword := (hmail (i - 2) hi').trans (h.mail (i - 2) hi')
    rwa [show 2 + (i - 2) = i by omega] at hword

/-! ## Sequences of commands -/

/-- A command with the array for its output. -/
structure Request where
  opcode : OPCODE
  op_mod : Word
  payload : Buf
  payload_length : ℕ
  output : Buf
  output_length : ℕ

/-- The command that the device is to see. -/
def Request.command (q : Request) : Command :=
  CMD.command q.opcode q.op_mod q.payload q.payload_length q.output_length

/-- A request within the limits, with room for its output. -/
structure Request.Ok (q : Request) : Prop
    extends Fits q.payload q.payload_length q.output_length where
  output_size : q.output_length ≤ q.output.size

/-- Issues a command and takes its output. -/
def request (D : HCA δ) (q : Request) : Exec (World δ) (List Word) := do
  let slot ← issue D q.opcode q.op_mod q.payload q.payload_length q.output_length
  let output ← World.argsLens.zoom (getCmdOutput slot q.output q.output_length)
  return Buf.words output q.output_length

/-- Issues commands one after the other. -/
def requestAll (D : HCA δ) : List Request → Exec (World δ) (List (List Word))
  | [] => return []
  | q :: qs => do
    let output ← request D q
    let outputs ← requestAll D qs
    return output :: outputs

/-- The device on its own: its state after a sequence of commands, and the words of its replies. -/
def callAll (D : HCA δ) : δ → List Command → δ × List (List Word)
  | s, [] => (s, [])
  | s, c :: cs =>
    let (s', r) := D.exec s c
    let (s'', outputs) := callAll D s' cs
    (s'', (List.range c.output_length).map r.output :: outputs)

/-- A request is a call of the device. -/
theorem request_ok (D : HCA δ) (hD : ∀ s c, (D.exec s c).2.Ok) {w : World δ} (hidle : Idle w.args)
    {q : Request} (hq : q.Ok) :
    ∃ args, Idle args ∧ request D q w =
      .ok ((List.range q.output_length).map (D.exec w.dev q.command).2.output)
        ⟨args, (D.exec w.dev q.command).1, w.seen ++ [q.command]⟩ := by
  obtain ⟨w', hdev, hseen, hidle', -, hanswered, hissue⟩ :=
    issue_cases D hidle hq.toFits q.opcode q.op_mod
  have hret := hissue.resolve_right fun h => h.1 (hD _ _)
  obtain ⟨output, hget, -, hwords⟩ := getCmdOutput_ok hanswered hq.output_le hq.output_size
  have houtput : Buf.words output q.output_length =
      (List.range q.output_length).map (D.exec w.dev q.command).2.output :=
    List.map_congr_left fun i hi => hwords i (List.mem_range.mp hi)
  refine ⟨w'.args, hidle', ?_⟩
  unfold request
  refine (bind_of_ok hret).trans ((bind_of_ok (Lens.zoom_of_ok hget)).trans ?_)
  rw [houtput]
  obtain ⟨args, dev, seen⟩ := w'
  obtain rfl : dev = _ := hdev
  obtain rfl : seen = _ := hseen
  rfl

/-- A sequence of commands through the ring and the mailboxes is the sequence of calls of the
device: it sees exactly the commands, and the outputs are the words of its replies, whatever the
ring and the mailboxes contained at the start. -/
theorem requestAll_eq_callAll (D : HCA δ) (hD : ∀ s c, (D.exec s c).2.Ok) (w : World δ)
    (hidle : Idle w.args) (qs : List Request) (hqs : ∀ q ∈ qs, q.Ok) :
    let calls := callAll D w.dev (qs.map Request.command)
    ∃ args, Idle args ∧
      requestAll D qs w = .ok calls.2 ⟨args, calls.1, w.seen ++ qs.map Request.command⟩ := by
  induction qs generalizing w with
  | nil =>
    refine ⟨w.args, hidle, ?_⟩
    rw [List.map_nil, List.append_nil]
    rfl
  | cons q qs ih =>
    obtain ⟨args, hidle', hfirst⟩ := request_ok D hD hidle (hqs q List.mem_cons_self)
    obtain ⟨args', hidle'', hrest⟩ := ih
      ⟨args, (D.exec w.dev q.command).1, w.seen ++ [q.command]⟩ hidle' fun q' hq' =>
        hqs q' (List.mem_cons_of_mem _ hq')
    refine ⟨args', hidle'', ?_⟩
    unfold requestAll
    refine (bind_of_ok hfirst).trans ((bind_of_ok hrest).trans ?_)
    rw [List.map_cons, List.append_assoc]
    rfl

/-- Zeroed command arguments with a number of slots. -/
def freshArgs (size : ℕ) : CMD_Args where
  cq := { start := 0x1000, size := size, head := 0, dma_mem := ⟨0x1000, 0x1000⟩ }
  imb_mem := ⟨0x100000, 0x100000⟩
  omb_mem := ⟨0x200000, 0x200000⟩
  cqe _ := {}
  mbb _ := ⟨fun _ => 0, 0, 0, 0, 0⟩
  dbv := 0
  rung := []

/-- Fresh arguments are ready for a command. -/
theorem freshArgs_idle {size : ℕ} (hpos : 1 ≤ size) (hle : size ≤ 32) : Idle (freshArgs size) where
  size_pos := hpos
  size_le := hle
  head := hpos
  imb := ⟨by norm_num [freshArgs], by norm_num [freshArgs]⟩
  omb := ⟨by norm_num [freshArgs], by norm_num [freshArgs]⟩
  disjoint := .inl (by norm_num [freshArgs])
  rung := rfl

/-- A device that replies with the number of the command. -/
def counter : HCA ℕ where
  exec n _ := (n + 1, ⟨0, 0, fun _ => BitVec.ofNat 32 n⟩)

/-- A device that replies with zeros. -/
def quiet : HCA Unit where
  exec _ _ := ((), ⟨0, 0, fun _ => 0⟩)

/-- A request with the words of a list as its payload. -/
def Request.ofList (opcode : OPCODE) (payload : List Word) (output_length : ℕ) : Request where
  opcode := opcode
  op_mod := 1
  payload := Buf.ofList payload
  payload_length := payload.length
  output := ⟨output_length, fun _ => 0⟩
  output_length := output_length

/-- A request whose payload is a list stays within the limits if both lengths do. -/
theorem Request.ofList_ok {opcode : OPCODE} {payload : List Word} {output_length : ℕ}
    (hpayload : payload.length ≤ 2 + IMB_MAX_DATA) (houtput : output_length ≤ 2 + OMB_MAX_DATA) :
    (Request.ofList opcode payload output_length).Ok where
  payload_le := hpayload
  payload_size := Nat.le_refl _
  output_le := houtput
  output_size := Nat.le_refl _

/-- A long command, and a short one after it, through a ring of one slot. -/
theorem requestAll_counter :
    let qs := [Request.ofList .MANAGE_PAGES (List.replicate 200 7) 300,
      Request.ofList .QUERY_EQ [3, 4] 66]
    ∃ args, Idle args ∧ requestAll counter qs ⟨freshArgs 1, 0, []⟩ =
      .ok (callAll counter 0 (qs.map Request.command)).2 ⟨args, 2, qs.map Request.command⟩ := by
  intro qs
  have hok : ∀ q ∈ qs, q.Ok := by
    intro q hq
    simp only [qs, List.mem_cons, List.not_mem_nil, or_false] at hq
    rcases hq with rfl | rfl
    · exact Request.ofList_ok (by rw [List.length_replicate]; norm_num) (by norm_num)
    · exact Request.ofList_ok (by norm_num) (by norm_num)
  exact requestAll_eq_callAll counter (fun _ _ => ⟨rfl, rfl⟩) ⟨freshArgs 1, 0, []⟩
    (freshArgs_idle (by decide) (by decide)) qs hok

end L4Rdma.CMD
