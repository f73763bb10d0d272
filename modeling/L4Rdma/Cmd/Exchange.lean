import L4Rdma.Cmd.Call
import L4Rdma.Lib.Dialogue

/-!
# What the driver says to the device

A command and the reply to it are an exchange between the driver and the device. The driver says a
command by issuing it, and goes on when `validate_cqe` finds that the device has accepted it, which
depends on the two status fields of the reply and on nothing else (`validateCqe_accepted`). A command
within the limits is one exchange of exactly this command (`obeys_issue`). Of any other command there
is at most one exchange, which has its opcode (`obeys_issueAny`).
-/

namespace L4Rdma.CMD

open Lib Device

variable {δ P : Type} {a a' : CMD_Args} {slot : ℕ} {payload : Buf}
  {payload_length output_length : ℕ} {opcode : OPCODE} {op_mod : Word} {r : Reply}

/-! ## Exchanges -/

/-- A command and the reply to it. -/
abbrev Exchange : Type := Command × Reply

/-- The device gives these replies to these commands, and has another state afterwards. -/
def Replies (D : HCA δ) : δ → List Exchange → δ → Prop
  | d, [], d' => d' = d
  | d, (c, r) :: es, d' => r = (D.exec d c).2 ∧ Replies D (D.exec d c).1 es d'

/-- A device replies to two sequences of commands one after the other. -/
theorem Replies.append {D : HCA δ} {d d' d'' : δ} {es es' : List Exchange} (h : Replies D d es d')
    (h' : Replies D d' es' d'') : Replies D d (es ++ es') d'' := by
  induction es generalizing d with
  | nil =>
    obtain rfl : d' = d := h
    exact h'
  | cons e es ih => exact ⟨h.1, ih h.2⟩

/-- What the driver and the device have exchanged. -/
def speech (D : HCA δ) : Dialogue (World δ) Exchange where
  said w es w' := w'.seen = w.seen ++ es.map Prod.fst ∧ Replies D w.dev es w'.dev
  nil w := ⟨(List.append_nil _).symm, rfl⟩
  append := by
    rintro w w' w'' es es' ⟨hseen, hreplies⟩ ⟨hseen', hreplies'⟩
    refine ⟨?_, hreplies.append hreplies'⟩
    calc w''.seen = w.seen ++ es.map Prod.fst ++ es'.map Prod.fst := by rw [hseen', hseen]
      _ = w.seen ++ (es ++ es').map Prod.fst := by rw [List.append_assoc, List.map_append]

/-- The reply that the device gives to a command now. -/
abbrev World.reply (D : HCA δ) (w : World δ) (c : Command) : Reply := (D.exec w.dev c).2

/-! ## Accepted commands -/

/-- The status field of the entry has 7 bits and that of the output has 8. The device has accepted a
command if both are 0. -/
def Reply.Accepted (r : Reply) : Prop := r.cqe_status.setWidth 7 = 0 ∧ r.cod_status.setWidth 8 = 0

/-- Whether a command has been accepted can be evaluated. -/
instance (r : Reply) : Decidable r.Accepted := inferInstanceAs (Decidable (_ ∧ _))

/-- A device that reports success has accepted the command. -/
theorem Reply.Ok.accepted (h : r.Ok) : r.Accepted := by
  unfold Reply.Accepted
  rw [h.1, h.2]
  exact ⟨rfl, rfl⟩

/-- The check of the entry looks at the 7 bits. -/
theorem cqeStatus_eq_zero (status : Word) :
    (ioread32be (iowrite32be (status <<< CQE_STATUS_OFFSET &&& CQE_STATUS_MASK)) &&&
      CQE_STATUS_MASK) >>> CQE_STATUS_OFFSET = 0 ↔ status.setWidth 7 = 0 := by
  rw [ioread32be_iowrite32be]
  unfold CQE_STATUS_OFFSET CQE_STATUS_MASK
  constructor
  · intro h
    ext i hi
    have hbit := congrArg (fun w : Word => w.getLsbD i) h
    interval_cases i <;> simpa using hbit
  · intro h
    ext i hi
    have hbit := fun j => congrArg (fun w : BitVec 7 => w.getLsbD j) h
    rcases Nat.lt_or_ge i 7 with hlt | hge
    · have hi' := hbit i
      interval_cases i <;> simpa using hi'
    · interval_cases i <;> simp

/-- The check of the output looks at the 8 bits. -/
theorem codStatus_eq_zero (status : Word) :
    (ioread32be (iowrite32be (status <<< COD_STATUS_OFFSET)) &&& COD_STATUS_MASK) >>>
      COD_STATUS_OFFSET = 0 ↔ status.setWidth 8 = 0 := by
  rw [ioread32be_iowrite32be]
  unfold COD_STATUS_OFFSET COD_STATUS_MASK
  constructor
  · intro h
    ext i hi
    have hbit := congrArg (fun w : Word => w.getLsbD i) h
    interval_cases i <;> simpa using hbit
  · intro h
    ext i hi
    have hbit := fun j => congrArg (fun w : BitVec 8 => w.getLsbD j) h
    rcases Nat.lt_or_ge i 8 with hlt | hge
    · have hi' := hbit i
      interval_cases i <;> simpa using hi'
    · interval_cases i <;> simp

/-- `validate_cqe` returns if the device has accepted the command, and otherwise it throws. -/
theorem validateCqe_accepted (h : Answered a slot output_length r) :
    if r.Accepted then validateCqe [slot] a = .ok () a
    else ∃ what, validateCqe [slot] a = .error (.thrown what) a := by
  have hvalidate : validateCqe [slot] a =
      (checkCqeStatus slot >>= fun _ => checkCodStatus slot >>= fun _ => validateCqe []) a :=
    bind_of_ok (pollOwnership_ok h)
  have hcqe := cqeStatus_eq_zero r.cqe_status
  rw [← h.ctrl] at hcqe
  have hcod := codStatus_eq_zero r.cod_status
  rw [← h.status] at hcod
  rw [hvalidate]
  by_cases hfirst : r.cqe_status.setWidth 7 = 0
  · have hcheck : checkCqeStatus slot a = .ok () a := doIf_of_neg (not_not_intro (hcqe.mpr hfirst)) _ a
    rw [bind_of_ok hcheck]
    by_cases hsecond : r.cod_status.setWidth 8 = 0
    · rw [if_pos ⟨hfirst, hsecond⟩]
      exact bind_of_ok (doIf_of_neg (not_not_intro (hcod.mpr hsecond)) _ a)
    · rw [if_neg fun hr => hsecond hr.2]
      have hthrow : checkCodStatus slot a = .error (.thrown "COD Error") a := by
        unfold checkCodStatus
        rw [get_bind, doIf_of_pos (mt hcod.mp hsecond)]
        rfl
      exact ⟨_, bind_of_error hthrow⟩
  · rw [if_neg fun hr => hfirst hr.1]
    have hthrow : checkCqeStatus slot a = .error (.thrown "CQE Error") a := by
      unfold checkCqeStatus
      rw [get_bind, doIf_of_pos (mt hcqe.mp hfirst)]
      rfl
    exact ⟨_, bind_of_error hthrow⟩

/-! ## Commands within the limits -/

/-- A command within the limits is one exchange. Issuing it returns if the device accepts it, with the
reply in the slot, and otherwise it throws. -/
theorem issue_accepted (D : HCA δ) {w : World δ} (hidle : Idle w.args)
    (hfits : Fits payload payload_length output_length) (opcode : OPCODE) (op_mod : Word) :
    let c := command opcode op_mod payload payload_length output_length
    ∃ w', (speech D).said w [(c, w.reply D c)] w' ∧ Idle w'.args ∧
      Answered w'.args w.args.cq.head output_length (w.reply D c) ∧
      if (w.reply D c).Accepted then
        issue D opcode op_mod payload payload_length output_length w = .ok w.args.cq.head w'
      else ∃ what, issue D opcode op_mod payload payload_length output_length w =
        .error (.thrown what) w' := by
  intro c
  obtain ⟨w', hdev, hseen, hidle', -, hanswered, hissue⟩ := issue_answered D hidle hfits opcode op_mod
  have hvalidate := validateCqe_accepted hanswered
  refine ⟨w', ⟨hseen, rfl, hdev⟩, hidle', hanswered, ?_⟩
  by_cases hr : (w.reply D c).Accepted
  · rw [if_pos hr] at hvalidate ⊢
    exact hissue.trans (bind_of_ok (Lens.zoom_of_ok hvalidate))
  · rw [if_neg hr] at hvalidate ⊢
    obtain ⟨what, herr⟩ := hvalidate
    exact ⟨what, hissue.trans (bind_of_error (Lens.zoom_of_error herr))⟩

/-- What issuing a command leaves when the device has accepted it, with the phase that it comes to. -/
structure Issued (slot output_length : ℕ) (r : Reply) (w' : World δ) : Prop where
  idle : Idle w'.args
  answered : Answered w'.args slot output_length r
  accepted : r.Accepted

/-- Issuing a command within the limits obeys a protocol in which this command may come next. -/
theorem obeys_issue (D : HCA δ) {w : World δ} (hidle : Idle w.args)
    (hfits : Fits payload payload_length output_length) (opcode : OPCODE) (op_mod : Word)
    {next : P → Exchange → Option P} {p p' q : P}
    (hnext : let c := command opcode op_mod payload payload_length output_length
      next p (c, w.reply D c) = some (if (w.reply D c).Accepted then p' else q)) :
    Obeys (speech D) next (issue D opcode op_mod payload payload_length output_length) w p
      (fun slot w' p'' => p'' = p' ∧ Issued slot output_length
        (w.reply D (command opcode op_mod payload payload_length output_length)) w')
      fun e w' p'' => (∃ what, e = .thrown what) ∧ p'' = q ∧ Idle w'.args := by
  obtain ⟨w', hsaid, hidle', hanswered, hissue⟩ := issue_accepted D hidle hfits opcode op_mod
  have hleads := Dialogue.leads_of_said hsaid hnext
  by_cases hr : (w.reply D (command opcode op_mod payload payload_length output_length)).Accepted
  · rw [if_pos hr] at hissue hleads
    exact ends_of_ok hissue ⟨p', hleads, rfl, hidle', hanswered, hr⟩
  · rw [if_neg hr] at hissue hleads
    obtain ⟨what, herr⟩ := hissue
    exact ends_of_error herr ⟨q, hleads, ⟨what, rfl⟩, rfl, hidle'⟩

/-! ## Any command -/

/-- The ring, the doorbells and the mailboxes, without what they contain. -/
def CMD_Args.places (a : CMD_Args) : Q.Queue × List ℕ × MEM.DmaMem × MEM.DmaMem :=
  (a.cq, a.rung, a.imb_mem, a.omb_mem)

/-- A part of the arguments that does not depend on what the mailboxes contain. -/
def MailFree {τ : Type} (f : CMD_Args → τ) : Prop := ∀ a mbb, f { a with mbb := mbb } = f a

section Leaving

variable {τ : Type} {f : CMD_Args → τ}

/-- Writing a block leaves everything besides the mailboxes. -/
theorem leaves_writeBlock (hf : MailFree f) (m : MEM.DmaMem) (i : ℕ) (g : MBB → MBB) : Leaves f (writeBlock m i g) :=
  leaves_ite (fun a => ends_of_ok (modify_apply _ a) (hf a _)) (leaves_throw _)

/-- So does tying the blocks together. -/
theorem leaves_tieMailTogether (hf : MailFree f) (m : MEM.DmaMem) (n : ℕ) : Leaves f (tieMailTogether m n) :=
  (leaves_forRange fun i _ => leaves_writeBlock hf m i _).bind fun _ => leaves_writeBlock hf m n _

/-- So does packing a payload. -/
theorem leaves_packMail (hf : MailFree f) (m : MEM.DmaMem) (payload : Buf) (start length : ℕ) :
    Leaves f (packMail m payload start length) := by
  have hread : ∀ i, Leaves f (payload.read i) := fun i => leaves_ite (leaves_pure _) (leaves_throw _)
  refine (leaves_forRange fun i c => ?_).bind fun c => leaves_tieMailTogether hf m _
  exact (hread _).bind fun w => (leaves_writeBlock hf m _ _).bind fun _ => leaves_pure _

/-- Filling the input leaves what writing to the entry leaves. -/
theorem leaves_writeInput (hf : MailFree f) (hcqe : ∀ g, Leaves f (writeCqe slot g))
    (payload : Buf) (payload_length length : ℕ) : Leaves f (writeInput slot payload payload_length length) := by
  have hdata : ∀ i, Leaves f (writeData slot payload i) := fun i =>
    Leaves.bind (leaves_ite (leaves_pure _) (leaves_throw _)) fun w => hcqe _
  have hmail : Leaves f (writeInputMail slot payload payload_length) :=
    leaves_get.bind fun a => (leaves_packMail hf _ payload _ _).bind fun _ => hcqe _
  exact (leaves_doIf (hdata 0)).bind fun _ => (leaves_doIf (hdata 1)).bind fun _ => leaves_doIf hmail

/-- And so does setting up the output. -/
theorem leaves_writeOutput (hf : MailFree f)
    (hcqe : ∀ phys, Leaves f (writeCqe slot fun c => c.setOutputMailbox phys)) (length : ℕ) :
    Leaves f (writeOutput slot length) :=
  leaves_doIf (leaves_get.bind fun _ => (leaves_tieMailTogether hf _ _).bind fun _ => hcqe _)

end Leaving

/-- Puts a word of a payload into the entry. -/
theorem ends_writeData (payload : Buf) (i : Fin 2) (a : CMD_Args) :
    Ends (writeData slot payload i) a
      (fun _ a' => a' = a.setCqe slot ((a.cqe slot).setData i (payload.word i))) fun _ _ => True := by
  unfold writeData Buf.read
  split_ifs
  · exact ends_of_ok (bind_of_ok rfl) rfl
  · exact ends_of_error rfl trivial

/-- The words of a short payload are in the entry, whose length stays. -/
theorem ends_writeInput_short {n : ℕ} (hn : n ≤ 2) (payload : Buf) (a : CMD_Args) :
    Ends (writeInput slot payload n (byteLength n)) a
      (fun _ a' => (a'.cqe slot).input_length = (a.cqe slot).input_length ∧
        ∀ j : Fin 2, j.val < n → (a'.cqe slot).cid.data j = iowrite32be (payload.word j))
      fun _ _ => True := by
  -- Writing one word to the entry changes that word only.
  have hdata : ∀ i (a : CMD_Args), Ends (writeData slot payload i) a
      (fun _ a' => (a'.cqe slot).input_length = (a.cqe slot).input_length ∧
        (a'.cqe slot).cid.data = Function.update (a.cqe slot).cid.data i (iowrite32be (payload.word i)))
      fun _ _ => True := by
    intro i a
    refine (ends_writeData payload i a).mono ?_ fun _ _ _ => trivial
    rintro _ _ rfl
    rw [setCqe_cqe_self]
    exact ⟨rfl, rfl⟩
  unfold writeInput
  -- No more than two words go to the entry itself, and no mailbox is needed.
  interval_cases n
  · -- There is nothing to write.
    exact ends_of_ok rfl ⟨rfl, fun j hj => absurd hj (Nat.not_lt_zero _)⟩
  · -- One word goes to the entry, and the other word of the entry is not looked at.
    refine Ends.bind ((hdata 0 a).mono (fun _ _ h => h) fun _ _ h => h) ?_
    rintro _ a₁ ⟨hlength, hwords⟩
    refine ends_of_ok rfl ⟨hlength, fun j hj => ?_⟩
    obtain rfl : j = 0 := Fin.ext (Nat.lt_one_iff.mp hj)
    rw [hwords, Function.update_self]
  · -- The second word is written after the first one and leaves it.
    refine Ends.bind ((hdata 0 a).mono (fun _ _ h => h) fun _ _ h => h) ?_
    rintro _ a₁ ⟨hlength₁, hwords₁⟩
    refine Ends.bind ((hdata 1 a₁).mono (fun _ _ h => h) fun _ _ h => h) ?_
    rintro _ a₂ ⟨hlength₂, hwords₂⟩
    refine ends_of_ok rfl ⟨hlength₂.trans hlength₁, fun j _ => ?_⟩
    rw [hwords₂, hwords₁]
    fin_cases j
    · rfl
    · rfl

/-- The words of a short payload are read from the entry. -/
theorem readCommand_payload {n : ℕ} (hn : n ≤ 2) {payload : Buf} {a : CMD_Args}
    (hlength : (a.cqe slot).input_length = iowrite32be (BitVec.ofNat 32 (byteLength n)))
    (hwords : ∀ j : Fin 2, j.val < n → (a.cqe slot).cid.data j = iowrite32be (payload.word j)) :
    (readCommand a slot).payload = (List.range n).map payload.word := by
  have hcount : wordLength (ioread32be (a.cqe slot).input_length) = n := by
    rw [hlength]
    exact wordLength_byteLength (hn.trans (Nat.le_add_right 2 _))
  show (List.range (wordLength (ioread32be (a.cqe slot).input_length))).map (inputWord a slot) = _
  rw [hcount]
  refine List.map_congr_left fun j hj => ?_
  have hj' : j < n := List.mem_range.mp hj
  have hlt : j < 2 := Nat.lt_of_lt_of_le hj' hn
  calc inputWord a slot j
      = ioread32be ((a.cqe slot).cid.data ⟨j, hlt⟩) := dif_pos hlt
    _ = ioread32be (iowrite32be (payload.word j)) := congrArg ioread32be (hwords ⟨j, hlt⟩ hj')
    _ = payload.word j := ioread32be_iowrite32be _

/-- The places, and what is in an entry about the command and its input. -/
def CMD_Args.entered (slot : ℕ) (a : CMD_Args) : (Q.Queue × List ℕ × MEM.DmaMem × MEM.DmaMem) × CID × Word :=
  (a.places, (a.cqe slot).cid, (a.cqe slot).input_length)

/-- A write to the entry that is about something else leaves them. -/
theorem leaves_entered {g : CQE → CQE}
    (hg : ∀ c, (g c).cid = c.cid ∧ (g c).input_length = c.input_length) :
    Leaves (CMD_Args.entered slot) (writeCqe slot g) := by
  intro a
  refine ends_of_ok (modify_apply _ a) (Prod.ext rfl (Prod.ext ?_ ?_))
  · show ((a.setCqe slot _).cqe slot).cid = (a.cqe slot).cid
    rw [setCqe_cqe_self, (hg _).1]
  · show ((a.setCqe slot _).cqe slot).input_length = (a.cqe slot).input_length
    rw [setCqe_cqe_self, (hg _).2]

/-- The part of `create_cqe` after the input leaves the entry's command and input, and moves the head on. -/
theorem ends_finishCqe (output_length : ℕ) (a : CMD_Args) :
    Ends (finishCqe slot output_length) a
      (fun slot' a' => slot' = a.cq.head ∧
        a'.places = ((Q.enqueue a.cq).2, a.rung, a.imb_mem, a.omb_mem) ∧
        (a'.cqe slot).cid = (a.cqe slot).cid ∧ (a'.cqe slot).input_length = (a.cqe slot).input_length)
      fun _ a' => a'.places = a.places := by
  have houtput : Leaves (CMD_Args.entered slot) (writeOutput slot output_length) := by
    refine leaves_writeOutput (fun _ _ => rfl) (fun _ => leaves_entered ?_) _
    exact fun _ => ⟨rfl, rfl⟩
  unfold finishCqe
  refine Ends.bind ((houtput a).mono (fun _ _ h => h) fun _ _ h => congrArg Prod.fst h) ?_
  rintro _ a₁ h₁
  obtain ⟨hplaces, hentry⟩ := Prod.mk.inj h₁
  obtain ⟨hcid, hlength⟩ := Prod.mk.inj hentry
  obtain ⟨hcq, hrest⟩ := Prod.mk.inj hplaces
  refine Ends.bind_of_ok (writeCqe_apply _) (Ends.bind_of_ok (writeCqe_apply _) (ends_of_ok rfl ?_))
  refine ⟨congrArg Q.Queue.head hcq, Prod.ext (congrArg (fun cq => (Q.enqueue cq).2) hcq) hrest, ?_, ?_⟩
  · rw [← hcid]
    show ((CMD_Args.setCqe _ slot _).cqe slot).cid = _
    rw [setCqe_cqe_self, setCqe_cqe_self]
  · rw [← hlength]
    show ((CMD_Args.setCqe _ slot _).cqe slot).input_length = _
    rw [setCqe_cqe_self, setCqe_cqe_self]

/-- However `create_cqe` ends, the ring and the mailboxes are where they were. When it returns, it has
moved the head on, and the entry has the number of the command, and its payload if that is short. -/
theorem createCqe_places (opcode : OPCODE) (op_mod : Word) (payload : Buf)
    (payload_length output_length : ℕ) (a : CMD_Args) :
    Ends (createCqe opcode op_mod payload payload_length output_length) a
      (fun slot a' => slot = a.cq.head ∧
        a'.places = ((Q.enqueue a.cq).2, a.rung, a.imb_mem, a.omb_mem) ∧
        (readCommand a' slot).opcode = opcode.value ∧
        (readCommand a' slot).op_mod = CID_OP_MOD_MASK &&& op_mod ∧
        (payload_length ≤ 2 →
          (readCommand a' slot).payload = (List.range payload_length).map payload.word))
      fun _ a' => a'.places = a.places := by
  have hcqe : ∀ g, Leaves CMD_Args.places (writeCqe a.cq.head g) := fun g a =>
    ends_of_ok (modify_apply _ a) rfl
  unfold createCqe
  refine Ends.bind_of_ok (get_apply a) ?_
  refine Ends.bind ((hcqe _ a).mono (fun _ _ h => h) fun _ _ h => h) fun _ a₁ h₁ => ?_
  -- The type and the length are written to an entry that has just been cleared.
  refine Ends.bind_of_ok (writeCqe_apply _) ?_
  generalize hstarted : a₁.setCqe a.cq.head _ = a₂
  have h₂ : a₂.places = a.places := by
    subst hstarted
    exact h₁
  have hlength₂ : (a₂.cqe a.cq.head).input_length =
      iowrite32be (BitVec.ofNat 32 (byteLength payload_length)) := by
    subst hstarted
    rw [setCqe_cqe_self]
  -- The input may fail, and may be long. The entry has all of it only if it is short.
  have hshort : Ends (writeInput a.cq.head payload payload_length (byteLength payload_length)) a₂
      (fun _ a' => payload_length ≤ 2 → (a'.cqe a.cq.head).input_length =
        (a₂.cqe a.cq.head).input_length ∧ ∀ j : Fin 2, j.val < payload_length →
          (a'.cqe a.cq.head).cid.data j = iowrite32be (payload.word j)) fun _ _ => True :=
    ⟨fun _ _ hok hn => (ends_writeInput_short hn payload a₂).1 _ _ hok, fun _ _ _ => trivial⟩
  have hinput := leaves_writeInput (fun _ _ => rfl) hcqe payload payload_length
    (byteLength payload_length) a₂
  refine Ends.bind ((hinput.and hshort).mono (fun _ _ h => h) fun _ _ h => h.1.trans h₂) ?_
  rintro _ a₃ ⟨heq₃, hinput₃⟩
  have h₃ : a₃.places = a.places := heq₃.trans h₂
  refine Ends.bind_of_ok (writeCqe_apply _) ?_
  -- Then the number of the command is written, next to the words of the input.
  generalize hnew : a₃.setCqe a.cq.head _ = a₄
  have hplaces : a₄.places = a.places := by
    subst hnew
    exact h₃
  have hcid₄ : (a₄.cqe a.cq.head).cid = { (a₃.cqe a.cq.head).cid with
      opcode := iowrite32be (CID_OPCODE_MASK &&& (opcode.value <<< CID_OPCODE_OFFSET))
      op_mod := iowrite32be (CID_OP_MOD_MASK &&& op_mod) } := by
    subst hnew
    rw [setCqe_cqe_self]
  have hlength₄ : (a₄.cqe a.cq.head).input_length = (a₃.cqe a.cq.head).input_length := by
    subst hnew
    rw [setCqe_cqe_self]
  -- The rest does not touch the command and its input.
  refine (ends_finishCqe (byteLength output_length) a₄).mono ?_ fun _ _ h => h.trans hplaces
  rintro slot a₅ ⟨rfl, hplaces₅, hcid₅, hlength₅⟩
  obtain ⟨hcq, hrest⟩ := Prod.mk.inj hplaces
  rw [hcq] at hplaces₅ ⊢
  refine ⟨rfl, hplaces₅.trans (Prod.ext rfl hrest), ?_, ?_, fun hn => ?_⟩
  · show ioread32be (a₅.cqe a.cq.head).cid.opcode >>> CID_OPCODE_OFFSET = _
    rw [hcid₅, hcid₄, ioread32be_iowrite32be, opcode_value]
  · show ioread32be (a₅.cqe a.cq.head).cid.op_mod = _
    rw [hcid₅, hcid₄, ioread32be_iowrite32be]
  · obtain ⟨hlength₃, hwords₃⟩ := hinput₃ hn
    have hlength : (a₅.cqe a.cq.head).input_length = iowrite32be (BitVec.ofNat 32 (byteLength payload_length)) :=
      hlength₅.trans (hlength₄.trans (hlength₃.trans hlength₂))
    refine readCommand_payload hn hlength fun j hj => ?_
    rw [hcid₅, hcid₄]
    exact hwords₃ j hj

/-- Arguments whose ring and mailboxes are where they were are idle as well. -/
theorem Idle.of_places (h : Idle a) (hplaces : a'.places = a.places) : Idle a' := by
  obtain ⟨hcq, hrest⟩ := Prod.mk.inj hplaces
  obtain ⟨hrung, hmail⟩ := Prod.mk.inj hrest
  obtain ⟨himb, homb⟩ := Prod.mk.inj hmail
  exact ⟨h.toReady.samePlace ⟨by rw [hcq], himb, homb⟩ (by rw [hcq]; exact h.head),
    hrung.trans h.rung⟩

/-- Whatever the length of its output is, the status of a command that has been replied to is where
the driver looks for it. -/
theorem complete_status (a : CMD_Args) (slot : ℕ) (r : Reply) :
    Answered (complete a slot r) slot 0 r := by
  have hnew : (complete a slot r).cqe slot = (a.cqe slot).complete r := Function.update_self _ _ _
  refine ⟨by rw [hnew]; rfl, by rw [hnew]; rfl, fun _ hi => ?_, fun _ hj => ?_⟩
  · exact absurd hi (Nat.not_lt_zero _)
  · exact absurd hj (Nat.not_lt_zero _)

/-- Of any command there is at most one exchange, with the number of the command and with its payload if
that is short, and the arguments stay idle. If the device accepts the command, the phase after it is one of `G`. -/
theorem obeys_issueAny (D : HCA δ) {w : World δ} (hidle : Idle w.args) (opcode : OPCODE)
    (op_mod : Word) (payload : Buf) (payload_length output_length : ℕ)
    {next : P → Exchange → Option P} {p : P} {G : P → Prop}
    (hnext : ∀ c r, c.opcode = opcode.value → c.op_mod = CID_OP_MOD_MASK &&& op_mod →
      (payload_length ≤ 2 → c.payload = (List.range payload_length).map payload.word) →
      ∃ p', next p (c, r) = some p' ∧ (r.Accepted → G p')) :
    Obeys (speech D) next (issue D opcode op_mod payload payload_length output_length) w p
      (fun _ w' p' => G p' ∧ Idle w'.args) fun _ w' _ => Idle w'.args := by
  rcases (createCqe_places opcode op_mod payload payload_length output_length w.args).cases with
    ⟨slot, a₁, hcreate, hslot, hplaces, hopcode, hmod, hpayload⟩ | ⟨e, a₁, herr, hplaces⟩
  swap
  · -- The command has not been created, and the device has not been told anything.
    refine ends_of_error (bind_of_error (Lens.zoom_of_error herr)) ⟨p, ?_, ?_⟩
    · exact Dialogue.leads_of_silent ⟨(List.append_nil _).symm, rfl⟩
    · exact hidle.of_places hplaces
  obtain ⟨hcq, hrest⟩ := Prod.mk.inj hplaces
  obtain ⟨hrung, hmail⟩ := Prod.mk.inj hrest
  obtain ⟨himb, homb⟩ := Prod.mk.inj hmail
  have hlt : slot < 32 := by
    rw [hslot]
    exact Nat.lt_of_lt_of_le hidle.head hidle.size_le
  -- The arguments while the device executes the command.
  let a₂ : CMD_Args := { a₁ with
    dbv := iowrite32be ([slot].map fun s => (1 : Word) <<< s).sum
    rung := [] }
  let c := readCommand a₂ slot
  let w' : World δ := ⟨complete a₂ slot (w.reply D c), (D.exec w.dev c).1, w.seen ++ [c]⟩
  have hserve : World.serve D { w with args := { a₂ with rung := [slot] } } = w' :=
    World.serve_eq D _ rfl
  -- The head has moved on inside of the ring, and the mailboxes are where they were.
  have hidle' : Idle w'.args := by
    have hsame : SamePlace w.args w'.args := ⟨by
      show a₁.cq.size = _
      rw [hcq, Q.enqueue_size], himb, homb⟩
    refine ⟨hidle.toReady.samePlace hsame ?_, rfl⟩
    show a₁.cq.head < a₁.cq.size
    rw [hcq, Q.enqueue_size]
    exact Q.enqueue_head_lt hidle.size_pos
  -- The command comes to the device with the doorbell, and what is left is to check its status.
  have hissue : issue D opcode op_mod payload payload_length output_length w =
      (World.argsLens.zoom (validateCqe [slot]) >>= fun _ => pure slot) w' := by
    unfold issue
    refine (bind_of_ok (Lens.zoom_of_ok hcreate)).trans ?_
    refine (bind_of_ok (Lens.zoom_of_ok (ringDoorbell_ok hlt _))).trans ?_
    rw [modify_bind, ← hserve]
    simp only [World.argsLens, hrung, hidle.rung, List.nil_append, a₂]
  -- So there has been one exchange, however the check ends.
  have hsaid : (speech D).said w [(c, w.reply D c)] w' := ⟨rfl, rfl, rfl⟩
  obtain ⟨p', hp', hG⟩ := hnext c (w.reply D c) hopcode hmod hpayload
  have hleads := Dialogue.leads_of_said hsaid hp'
  have hvalidate := validateCqe_accepted (complete_status a₂ slot (w.reply D c))
  by_cases hr : (w.reply D c).Accepted
  · rw [if_pos hr] at hvalidate
    exact ends_of_ok (hissue.trans (bind_of_ok (Lens.zoom_of_ok hvalidate))) ⟨p', hleads, hG hr, hidle'⟩
  · rw [if_neg hr] at hvalidate
    obtain ⟨what, herr⟩ := hvalidate
    exact ends_of_error (hissue.trans (bind_of_error (Lens.zoom_of_error herr))) ⟨p', hleads, hidle'⟩

end L4Rdma.CMD
