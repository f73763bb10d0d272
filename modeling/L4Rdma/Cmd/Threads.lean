import L4Rdma.Cmd.Call
import L4Rdma.Lib.Run

/-!
# Two threads and the device

The main thread and the thread of the page request handler issue commands through the same command
arguments. No lock is held between the calls, so a call of one thread can come between any two calls
of the other, and the device executes a command whose doorbell has been rung at any time. A call is
one step (`Act`). A thread whose `validate_cqe` times out takes no further step.

The command queue has no check that the slot at its head is free. `ownSlots_iff_inTime` is what
becomes of that: no command is overwritten before its thread has validated it, and what a thread
finds in its slot is about its own command, exactly when neither thread ever issues as many commands
as the ring has slots while a command of the other one is outstanding.
-/

namespace L4Rdma.CMD

open Lib Device

/-! ## The system -/

/-- The threads that issue commands. -/
inductive Thread
  | main
  | handler
  deriving DecidableEq

/-- The other thread. -/
def Thread.other : Thread → Thread
  | main => handler
  | handler => main

/-- How far a thread has come with its command. -/
inductive Phase
  /-- It has none. -/
  | idle
  /-- `create_cqe` has returned. -/
  | created
  /-- `ring_doorbell` has returned. -/
  | rung
  /-- `validate_cqe` has returned, and the thread is going to call `get_cmd_output`. -/
  | validated
  /-- `validate_cqe` has thrown because of a status. -/
  | stopped
  deriving DecidableEq

/-- The last command of a thread. -/
structure Job where
  phase : Phase
  slot : ℕ
  request : Request
  /-- Whether the thread takes the output. -/
  fetches : Bool
  /-- What the device has replied to the command. -/
  reply : Option Reply
  /-- How many commands have been created after it. -/
  behind : ℕ

/-- The threads, the device, and the memory they share. The last four fields record what has
happened: which thread has created the command in a slot, what it has passed, which commands the
device has executed, each with what had been passed for its slot, and which outputs the threads have
got, each with what the device had replied to the thread's command. -/
structure Sys (δ : Type) where
  args : CMD_Args
  dev : δ
  job : Thread → Job
  issuer : ℕ → Option Thread
  passed : ℕ → Option Command
  seen : List (Command × Option Command)
  fetched : List (List Word × Option (List Word))

/-- What happens in the system. -/
inductive Act
  /-- A thread calls `create_cqe`. -/
  | create (t : Thread) (q : Request) (fetches : Bool)
  /-- A thread calls `ring_doorbell`. -/
  | ring (t : Thread)
  /-- The device executes the command in a slot. -/
  | exec (slot : ℕ)
  /-- A thread calls `validate_cqe`, which finds the ownership bit clear. -/
  | validate (t : Thread)
  /-- A thread calls `get_cmd_output`. -/
  | fetch (t : Thread)

variable {δ : Type}

/-- The system with another command of a thread. -/
def Sys.setJob (s : Sys δ) (t : Thread) (j : Job) : Sys δ :=
  { s with job := Function.update s.job t j }

/-- A command after which another one has been created. -/
def Job.age (j : Job) : Job := { j with behind := j.behind + 1 }

/-- The system with a new command of a thread. -/
def Sys.issued (s : Sys δ) (t : Thread) (q : Request) (fetches : Bool) (slot : ℕ)
    (args : CMD_Args) : Sys δ :=
  { s with
    args := args
    job := Function.update (fun u => (s.job u).age) t ⟨.created, slot, q, fetches, none, 0⟩
    issuer := Function.update s.issuer slot (some t)
    passed := Function.update s.passed slot (some q.command) }

/-- The system after a thread's `create_cqe`, if it returns. -/
def Sys.create (s : Sys δ) (t : Thread) (q : Request) (fetches : Bool) : Option (Sys δ) :=
  match createCqe q.opcode q.op_mod q.payload q.payload_length q.output_length s.args with
  | .ok slot args => some (s.issued t q fetches slot args)
  | .error _ _ => none

/-- The system after a thread's `ring_doorbell`, if it returns. -/
def Sys.ring (s : Sys δ) (t : Thread) : Option (Sys δ) :=
  match ringDoorbell [(s.job t).slot] s.args with
  | .ok _ args => some { s.setJob t { s.job t with phase := .rung } with args := args }
  | .error _ _ => none

/-- The system after the device has executed the command in a slot. -/
def Sys.exec (D : HCA δ) (s : Sys δ) (slot : ℕ) : Sys δ :=
  let c := readCommand s.args slot
  let r := (D.exec s.dev c).2
  { s with
    args := complete { s.args with rung := s.args.rung.erase slot } slot r
    dev := (D.exec s.dev c).1
    job := fun t =>
      if s.issuer slot = some t ∧ (s.job t).slot = slot then { s.job t with reply := some r }
      else s.job t
    seen := s.seen ++ [(c, s.passed slot)] }

/-- The phase after a call of `validate_cqe` that finds the ownership bit clear. -/
def Sys.validated (s : Sys δ) (t : Thread) : Phase :=
  match validateCqe [(s.job t).slot] s.args with
  | .ok _ _ => if (s.job t).fetches then .validated else .idle
  | .error _ _ => .stopped

/-- The system after a thread's `get_cmd_output`, if it returns. -/
def Sys.fetch (s : Sys δ) (t : Thread) : Option (Sys δ) :=
  let j := s.job t
  match getCmdOutput j.slot j.request.output j.request.output_length s.args with
  | .ok output _ =>
    let replied := j.reply.map fun r => (List.range j.request.output_length).map r.output
    some { s.setJob t { j with phase := .idle } with
      fetched := s.fetched ++ [(Buf.words output j.request.output_length, replied)] }
  | .error _ _ => none

/-- The ownership bit of a slot is set to hardware. -/
def CMD_Args.OwnedByHw (a : CMD_Args) (slot : ℕ) : Prop :=
  ioread32be (a.cqe slot).ctrl &&& CQE_OWNERSHIP_MASK ≠ 0

/-- Who owns an entry can be evaluated. -/
instance (a : CMD_Args) (slot : ℕ) : Decidable (a.OwnedByHw slot) :=
  inferInstanceAs (Decidable (_ ≠ _))

/-- The system after an act, if the act is possible. -/
def Sys.next (D : HCA δ) (s : Sys δ) : Act → Option (Sys δ)
  | .create t q fetches => if (s.job t).phase = .idle then s.create t q fetches else none
  | .ring t => if (s.job t).phase = .created then s.ring t else none
  | .exec slot =>
    if slot ∈ s.args.rung ∧ s.args.OwnedByHw slot then some (s.exec D slot) else none
  | .validate t =>
    if (s.job t).phase = .rung ∧ ¬ s.args.OwnedByHw (s.job t).slot then
      some (s.setJob t { s.job t with phase := s.validated t })
    else none
  | .fetch t => if (s.job t).phase = .validated then s.fetch t else none

/-- A step of the system. -/
def Step (D : HCA δ) (s : Sys δ) (act : Act) (s' : Sys δ) : Prop := s.next D act = some s'

/-- Before the first command. The ring and the mailboxes may contain anything. -/
structure Init (s : Sys δ) : Prop where
  head : s.args.cq.head < s.args.cq.size
  size : s.args.cq.size ≤ 2 ^ 32
  idle : ∀ t, (s.job t).phase = .idle
  rung : s.args.rung = []

/-! ## Slots of their own -/

/-- A command that its thread has not validated yet. -/
def Job.Outstanding (j : Job) : Prop := j.phase = .created ∨ j.phase = .rung

/-- Whether a command is outstanding can be evaluated. -/
instance (j : Job) : Decidable j.Outstanding := inferInstanceAs (Decidable (_ ∨ _))

/-- A slot has the status of a reply. -/
def Reports (a : CMD_Args) (slot : ℕ) (r : Reply) : Prop :=
  (a.cqe slot).ctrl = iowrite32be (r.cqe_status <<< CQE_STATUS_OFFSET &&& CQE_STATUS_MASK) ∧
    (a.cqe slot).cod.status = iowrite32be (r.cod_status <<< COD_STATUS_OFFSET)

/-- No outstanding command has been overwritten, and the status that a thread finds in its slot is
that of its own command. -/
structure OwnSlots (s : Sys δ) : Prop where
  own : ∀ t, (s.job t).Outstanding → s.issuer (s.job t).slot = some t
  reports : ∀ t, (s.job t).Outstanding → ¬ s.args.OwnedByHw (s.job t).slot →
    ∃ r, (s.job t).reply = some r ∧ Reports s.args (s.job t).slot r

/-- The other thread's outstanding command, if it has one, is not as many commands old as the ring
has slots. -/
def InTime (s : Sys δ) : Act → Prop
  | .create t _ _ =>
    (s.job t.other).Outstanding → (s.job t.other).behind + 1 < s.args.cq.size
  | _ => True

/-- Whether a step is in time can be computed from the state before it. -/
instance (s : Sys δ) : (act : Act) → Decidable (InTime s act)
  | .create _ _ _ => inferInstanceAs (Decidable (_ → _))
  | .ring _ | .exec _ | .validate _ | .fetch _ => .isTrue trivial

/-! ## What a step does -/

variable {D : HCA δ} {s s' : Sys δ} {t u : Thread} {slot : ℕ}

/-- There are only two threads. -/
theorem Thread.eq_or_eq_other (t u : Thread) : u = t ∨ u = t.other := by
  cases t <;> cases u <;> decide

/-- The other thread is a different one. -/
theorem Thread.other_ne (t : Thread) : t.other ≠ t := by cases t <;> decide

/-- The thread has the command that it is given. -/
@[simp] theorem setJob_job_self (s : Sys δ) (t : Thread) (j : Job) : (s.setJob t j).job t = j :=
  Function.update_self _ _ _

/-- The other thread keeps its command. -/
theorem setJob_job_of_ne (s : Sys δ) (j : Job) (h : u ≠ t) : (s.setJob t j).job u = s.job u :=
  Function.update_of_ne h _ _

/-- The thread has just created its command. -/
theorem issued_job_self (q : Request) (fetches : Bool) (args : CMD_Args) :
    (s.issued t q fetches slot args).job t = ⟨.created, slot, q, fetches, none, 0⟩ := by
  simp only [Sys.issued, Function.update_self]

/-- The command of the other thread is one command older. -/
theorem issued_job_other (q : Request) (fetches : Bool) (args : CMD_Args) :
    (s.issued t q fetches slot args).job t.other = (s.job t.other).age := by
  simp only [Sys.issued, Function.update_of_ne t.other_ne]

/-- A thread creates a command when it has none. -/
theorem Step.create_cases {q : Request} {fetches : Bool} (h : Step D s (.create t q fetches) s') :
    (s.job t).phase = .idle ∧ ∃ args,
      createCqe q.opcode q.op_mod q.payload q.payload_length q.output_length s.args =
        .ok s.args.cq.head args ∧
      s' = s.issued t q fetches s.args.cq.head args := by
  unfold Step Sys.next at h
  simp only [Option.ite_none_right_eq_some] at h
  obtain ⟨hidle, h⟩ := h
  unfold Sys.create at h
  split at h
  next slot args hcreate =>
    cases h
    obtain ⟨rfl, -⟩ := createCqe_effect hcreate
    exact ⟨hidle, args, hcreate, rfl⟩
  next => cases h

/-- Ringing the doorbell changes neither the queue nor an entry. -/
theorem Step.ring_cases (h : Step D s (.ring t) s') :
    (s.job t).phase = .created ∧ (s.job t).slot < 32 ∧
      s' = { s.setJob t { s.job t with phase := .rung } with args := { s.args with
        dbv := iowrite32be ([(s.job t).slot].map fun i => (1 : Word) <<< i).sum
        rung := s.args.rung ++ [(s.job t).slot] } } := by
  unfold Step Sys.next at h
  simp only [Option.ite_none_right_eq_some] at h
  obtain ⟨hcreated, h⟩ := h
  unfold Sys.ring at h
  rcases Nat.lt_or_ge (s.job t).slot 32 with hlt | hge
  · rw [ringDoorbell_ok hlt] at h
    cases h
    exact ⟨hcreated, hlt, rfl⟩
  · have hthrow : ringDoorbell [(s.job t).slot] s.args =
        .error (.undefined .signed_overflow) s.args := by
      unfold ringDoorbell
      rw [doIf_of_pos ⟨_, List.mem_singleton_self _, hge⟩]
      rfl
    rw [hthrow] at h
    cases h

/-- The device takes an entry in hardware for which a doorbell has been rung. -/
theorem Step.exec_cases (h : Step D s (.exec slot) s') :
    slot ∈ s.args.rung ∧ s.args.OwnedByHw slot ∧ s' = s.exec D slot := by
  unfold Step Sys.next at h
  simp only [Option.ite_none_right_eq_some, Option.some.injEq] at h
  exact ⟨h.1.1, h.1.2, h.2.symm⟩

/-- A thread goes on when its entry is back in software. -/
theorem Step.validate_cases (h : Step D s (.validate t) s') :
    (s.job t).phase = .rung ∧ ¬ s.args.OwnedByHw (s.job t).slot ∧
      s' = s.setJob t { s.job t with phase := s.validated t } := by
  unfold Step Sys.next at h
  simp only [Option.ite_none_right_eq_some, Option.some.injEq] at h
  exact ⟨h.1.1, h.1.2, h.2.symm⟩

/-- A thread whose command has been validated takes the output. -/
theorem Step.fetch_cases (h : Step D s (.fetch t) s') :
    (s.job t).phase = .validated ∧ ∃ output args,
      getCmdOutput (s.job t).slot (s.job t).request.output (s.job t).request.output_length s.args =
        .ok output args ∧
      s' = { s.setJob t { s.job t with phase := .idle } with
        fetched := s.fetched ++ [(Buf.words output (s.job t).request.output_length,
          (s.job t).reply.map fun r =>
            (List.range (s.job t).request.output_length).map r.output)] } := by
  unfold Step Sys.next at h
  simp only [Option.ite_none_right_eq_some] at h
  obtain ⟨hvalidated, h⟩ := h
  unfold Sys.fetch at h
  simp only at h
  split at h
  next output args hget =>
    cases h
    exact ⟨hvalidated, output, args, hget, rfl⟩
  next => cases h

/-! ## The invariant -/

/-- The slot that is reached from the slot after a slot. -/
theorem add_mod_eq_iff {n behind : ℕ} (hslot : slot < n) (hbehind : behind < n) :
    (slot + 1 + behind) % n = slot ↔ behind + 1 = n := by
  rcases Nat.lt_or_ge (slot + 1 + behind) n with hlt | hge
  · rw [Nat.mod_eq_of_lt hlt]
    omega
  · rw [Nat.mod_eq_sub_mod hge, Nat.mod_eq_of_lt (by omega)]
    omega

/-- The entry of a command, before and after the device has replied. -/
def Entry (a : CMD_Args) (j : Job) : Prop :=
  match j.reply with
  | none => (a.cqe j.slot).ctrl = iowrite32be 1
  | some r => Reports a j.slot r

/-- An outstanding command is in its slot, and the head is as far from it as commands have been
created after it. -/
structure Placed (s : Sys δ) (t : Thread) : Prop where
  own : s.issuer (s.job t).slot = some t
  slot_lt : (s.job t).slot < s.args.cq.size
  behind_lt : (s.job t).behind < s.args.cq.size
  head : s.args.cq.head = ((s.job t).slot + 1 + (s.job t).behind) % s.args.cq.size
  entry : Entry s.args (s.job t)

/-- The invariant of steps that are in time. -/
structure SlotInv (s : Sys δ) : Prop where
  head : s.args.cq.head < s.args.cq.size
  size : s.args.cq.size ≤ 2 ^ 32
  placed : ∀ t, (s.job t).Outstanding → Placed s t

/-- A command that is neither created nor rung is not outstanding. -/
theorem not_outstanding {j : Job} (hc : j.phase ≠ .created) (hr : j.phase ≠ .rung) :
    ¬ j.Outstanding := fun h => h.elim hc hr

/-- The invariant for the slots holds when no command is outstanding. -/
theorem Init.slotInv (h : Init s) : SlotInv s where
  head := h.head
  size := h.size
  placed t ht := by
    have hidle := h.idle t
    exact absurd ht (not_outstanding (by rw [hidle]; decide) (by rw [hidle]; decide))

/-- A command that has just been given to the device is owned by it. -/
theorem ownedByHw_of_ctrl {a : CMD_Args} (h : (a.cqe slot).ctrl = iowrite32be 1) :
    a.OwnedByHw slot := by
  unfold CMD_Args.OwnedByHw
  rw [h, ioread32be_iowrite32be]
  decide

/-- Under the invariant, no outstanding command has been overwritten, and its status is its own. -/
theorem SlotInv.ownSlots (h : SlotInv s) : OwnSlots s where
  own t ht := (h.placed t ht).own
  reports t ht hsw := by
    have hentry := (h.placed t ht).entry
    unfold Entry at hentry
    cases hreply : (s.job t).reply with
    | none =>
      rw [hreply] at hentry
      exact absurd (ownedByHw_of_ctrl hentry) hsw
    | some r =>
      rw [hreply] at hentry
      exact ⟨r, rfl, hentry⟩

/-- An entry is about a command as long as the slot is not written and the device does not
reply. -/
theorem Entry.congr {a a' : CMD_Args} {j j' : Job} (h : Entry a j) (hslot : j'.slot = j.slot)
    (hreply : j'.reply = j.reply) (hcqe : a'.cqe j.slot = a.cqe j.slot) : Entry a' j' := by
  unfold Entry Reports at h ⊢
  rw [hslot, hreply, hcqe]
  exact h

/-- Creating a command in time keeps the invariant. -/
theorem SlotInv.create {q : Request} {fetches : Bool} (h : SlotInv s)
    (hstep : Step D s (.create t q fetches) s') (hin : InTime s (.create t q fetches)) :
    SlotInv s' := by
  obtain ⟨hidle, args, hcreate, rfl⟩ := hstep.create_cases
  obtain ⟨-, hcq, hrung, hother, hctrl⟩ := createCqe_effect hcreate
  have hpos : 0 < s.args.cq.size := Nat.zero_lt_of_lt h.head
  have hsize : args.cq.size = s.args.cq.size := by rw [hcq]; rfl
  -- The head moves on by one, and the entry that was at the head is the new one.
  have hhead : args.cq.head = (s.args.cq.head + 1) % s.args.cq.size := by
    rw [hcq]
    exact Q.enqueue_head h.size h.head
  have hlt : args.cq.head < args.cq.size := by
    rw [hhead, hsize]
    exact Nat.mod_lt _ hpos
  refine ⟨hlt, hsize ▸ h.size, fun u hu => ?_⟩
  rcases t.eq_or_eq_other u with rfl | rfl
  · -- The new command is at the place that the head had before.
    refine ⟨?_, ?_, ?_, ?_, ?_⟩
    all_goals rw [issued_job_self]
    · exact Function.update_self _ _ _
    · exact hsize ▸ h.head
    · exact hsize ▸ hpos
    · exact hsize ▸ hhead
    · exact hctrl
  · -- The other thread's command is neither overwritten nor reached by the head.
    rw [issued_job_other] at hu
    have hplaced := h.placed t.other hu
    have hage := hin hu
    have hne : (s.job t.other).slot ≠ s.args.cq.head := fun he => by
      have hreached := (add_mod_eq_iff hplaced.slot_lt hplaced.behind_lt).mp
        (hplaced.head.symm.trans he.symm)
      omega
    refine ⟨?_, ?_, ?_, ?_, ?_⟩
    all_goals rw [issued_job_other]
    · exact (Function.update_of_ne hne _ _).trans hplaced.own
    · exact hsize ▸ hplaced.slot_lt
    · exact hsize ▸ hage
    · -- It is one command older now.
      show args.cq.head = ((s.job t.other).slot + 1 + ((s.job t.other).behind + 1)) % args.cq.size
      rw [hhead, hsize, hplaced.head, Nat.mod_add_mod, Nat.add_assoc]
    · exact hplaced.entry.congr rfl rfl (hother _ hne)

/-- A step that leaves the queue, the issuers, and the entries of outstanding commands keeps the
invariant. -/
theorem SlotInv.of_jobs (h : SlotInv s) (hcq : s'.args.cq = s.args.cq)
    (hissuer : s'.issuer = s.issuer)
    (hjob : ∀ u, (s'.job u).Outstanding → (s.job u).Outstanding ∧
      (s'.job u).slot = (s.job u).slot ∧ (s'.job u).behind = (s.job u).behind)
    (hentry : ∀ u, (s'.job u).Outstanding → Placed s u → Entry s'.args (s'.job u)) :
    SlotInv s' := by
  refine ⟨hcq ▸ h.head, hcq ▸ h.size, fun u hu => ?_⟩
  obtain ⟨hout, hslot, hbehind⟩ := hjob u hu
  have hplaced := h.placed u hout
  refine ⟨?_, ?_, ?_, ?_, hentry u hu hplaced⟩
  · rw [hissuer, hslot]
    exact hplaced.own
  · rw [hslot, hcq]
    exact hplaced.slot_lt
  · rw [hbehind, hcq]
    exact hplaced.behind_lt
  · rw [hslot, hbehind, hcq]
    exact hplaced.head

/-- A thread goes on to another phase, in which its command is outstanding only if it was before. -/
theorem SlotInv.setPhase {phase : Phase} {a : CMD_Args} (h : SlotInv s) (hcq : a.cq = s.args.cq)
    (hcqe : a.cqe = s.args.cqe)
    (hphase : Job.Outstanding { s.job t with phase := phase } → (s.job t).Outstanding) :
    SlotInv { s.setJob t { s.job t with phase := phase } with args := a } := by
  have hfields : ∀ u, ((s.setJob t { s.job t with phase := phase }).job u).slot = (s.job u).slot ∧
      ((s.setJob t { s.job t with phase := phase }).job u).behind = (s.job u).behind ∧
      ((s.setJob t { s.job t with phase := phase }).job u).reply = (s.job u).reply := fun u => by
    by_cases he : u = t
    · subst he
      rw [setJob_job_self]
      exact ⟨rfl, rfl, rfl⟩
    · rw [setJob_job_of_ne _ _ he]
      exact ⟨rfl, rfl, rfl⟩
  have hout : ∀ u, ((s.setJob t { s.job t with phase := phase }).job u).Outstanding →
      (s.job u).Outstanding := fun u hu => by
    by_cases he : u = t
    · subst he
      rw [setJob_job_self] at hu
      exact hphase hu
    · rwa [setJob_job_of_ne _ _ he] at hu
  exact h.of_jobs hcq rfl (fun u hu => ⟨hout u hu, (hfields u).1, (hfields u).2.1⟩)
    fun u _ hplaced => hplaced.entry.congr (hfields u).1 (hfields u).2.2 (by rw [hcqe])

/-- The command of a thread after the device has executed a slot. -/
theorem exec_job (s : Sys δ) (slot : ℕ) (u : Thread) :
    (s.exec D slot).job u = { s.job u with
      reply := if s.issuer slot = some u ∧ (s.job u).slot = slot then
          some (D.exec s.dev (readCommand s.args slot)).2
        else (s.job u).reply } := by
  simp only [Sys.exec]
  split_ifs <;> rfl

/-- The device replies to the command in a slot. -/
theorem SlotInv.exec (h : SlotInv s) : SlotInv (s.exec D slot) := by
  refine h.of_jobs rfl rfl (fun u hu => ?_) fun u hu hplaced => ?_
  · rw [exec_job] at hu ⊢
    exact ⟨hu, rfl, rfl⟩
  · rw [exec_job]
    by_cases he : (s.job u).slot = slot
    · -- The slot still belongs to the thread, so the reply is the one to its command.
      have hown : s.issuer slot = some u := he ▸ hplaced.own
      rw [if_pos ⟨hown, he⟩]
      subst he
      unfold Entry Reports Sys.exec complete
      rw [setMbb_cqe, setCqe_cqe_self]
      exact ⟨rfl, rfl⟩
    · rw [if_neg fun hc => he hc.2]
      refine hplaced.entry.congr rfl rfl ?_
      unfold Sys.exec complete
      rw [setMbb_cqe, setCqe_cqe_of_ne he]

/-- Every step in time keeps the invariant. -/
theorem SlotInv.step {act : Act} (h : SlotInv s) (hstep : Step D s act s') (hin : InTime s act) :
    SlotInv s' := by
  cases act with
  | create t q fetches => exact h.create hstep hin
  | ring t =>
    obtain ⟨hcreated, -, rfl⟩ := hstep.ring_cases
    exact h.setPhase rfl rfl fun _ => .inl hcreated
  | exec slot =>
    obtain ⟨-, -, rfl⟩ := hstep.exec_cases
    exact h.exec
  | validate t =>
    obtain ⟨hrung, -, rfl⟩ := hstep.validate_cases
    exact h.setPhase rfl rfl fun _ => .inr hrung
  | fetch t =>
    obtain ⟨-, output, args, -, rfl⟩ := hstep.fetch_cases
    have hidle : ¬ Job.Outstanding { s.job t with phase := .idle } :=
      not_outstanding (fun h => by cases h) fun h => by cases h
    have hkept : SlotInv (s.setJob t { s.job t with phase := .idle }) :=
      h.setPhase rfl rfl fun hout => absurd hout hidle
    exact ⟨hkept.head, hkept.size, fun u hu => ⟨(hkept.placed u hu).own, (hkept.placed u hu).slot_lt,
      (hkept.placed u hu).behind_lt, (hkept.placed u hu).head, (hkept.placed u hu).entry⟩⟩

/-- Under the invariant, a command that is not created in time overwrites the outstanding command of
the other thread. -/
theorem SlotInv.not_ownSlots {act : Act} (h : SlotInv s) (hstep : Step D s act s')
    (hlate : ¬ InTime s act) : ¬ OwnSlots s' := by
  cases act with
  | create t q fetches =>
    obtain ⟨-, args, -, rfl⟩ := hstep.create_cases
    unfold InTime at hlate
    simp only [Classical.not_imp] at hlate
    obtain ⟨hout, hage⟩ := hlate
    have hplaced := h.placed t.other hout
    have hlast : (s.job t.other).behind + 1 = s.args.cq.size := by
      have hlt := hplaced.behind_lt
      omega
    have hreached : s.args.cq.head = (s.job t.other).slot :=
      hplaced.head.trans ((add_mod_eq_iff hplaced.slot_lt hplaced.behind_lt).mpr hlast)
    intro hown
    have hissuer := hown.own t.other (by rw [issued_job_other]; exact hout)
    rw [issued_job_other] at hissuer
    have hoverwritten : (s.issued t q fetches s.args.cq.head args).issuer (s.job t.other).slot =
        some t := by
      rw [← hreached]
      exact Function.update_self _ _ _
    have hsame : t = t.other := Option.some.inj (hoverwritten.symm.trans hissuer)
    exact t.other_ne hsame.symm
  | ring t => exact absurd trivial hlate
  | exec slot => exact absurd trivial hlate
  | validate t => exact absurd trivial hlate
  | fetch t => exact absurd trivial hlate

/-! ## Whole runs -/

/-- Throughout a run, no outstanding command is overwritten and what a thread finds in its slot is
about its own command, exactly when every command is created in time. -/
theorem ownSlots_iff_inTime {s₀ : Sys δ} {acts : List (Sys δ × Act)} (hinit : Init s₀)
    (hrun : Run (Step D) s₀ acts s) : Throughout OwnSlots acts s ↔ AllSteps InTime acts :=
  Run.all_iff hinit.slotInv (fun _ h => h.ownSlots) (fun _ _ _ h hstep hin => h.step hstep hin)
    (fun _ _ _ h hstep hlate => h.not_ownSlots hstep hlate) hrun

/-! ## A ring of 32 slots -/

/-- The command of `get_eq_state` on a queue with one page. -/
def queryEq : Request := { Request.ofList .QUERY_EQ [3, 0] 68 with op_mod := 0 }

/-- The command of `provide_pages` for one page. -/
def provideOne : Request := Request.ofList .MANAGE_PAGES [0, 1, 0, 0x5000] 2

/-- The system before the first command, with a ring of a number of slots. -/
def freshSys (size : ℕ) : Sys ℕ where
  args := freshArgs size
  dev := 0
  job _ := ⟨.idle, 0, provideOne, false, none, 0⟩
  issuer _ := none
  passed _ := none
  seen := []
  fetched := []

/-- It holds of a fresh system. -/
theorem freshSys_init {size : ℕ} (hpos : 0 < size) (hle : size ≤ 32) : Init (freshSys size) :=
  ⟨hpos, Nat.le_trans hle (by decide), fun _ => rfl, rfl⟩

/-- The handler provides a page, through a slot. -/
def handlerTurn (slot : ℕ) : List Act :=
  [.create .handler provideOne false, .ring .handler, .exec slot, .validate .handler]

/-- While the main thread waits for its command, the handler issues 31 commands. -/
def awaited : List Act :=
  [.create .main queryEq true, .ring .main] ++ (List.range 31).flatMap fun i => handlerTurn (i + 1)

/-- While the main thread waits for its command, the handler issues 32 commands, of which the last
one is created only. -/
def lapped : List Act := awaited ++ [.create .handler provideOne false]

/-- The slot of a thread's outstanding command is some other thread's. -/
def overwritten (s : Sys δ) (t : Thread) : Bool :=
  decide (s.job t).Outstanding && s.issuer (s.job t).slot != some t

/-- A command that has been overwritten does not have its slot any more. -/
theorem not_ownSlots_of_overwritten (h : overwritten s t = true) : ¬ OwnSlots s := fun hown => by
  unfold overwritten at h
  simp only [Bool.and_eq_true, decide_eq_true_eq, bne_iff_ne] at h
  exact h.2 (hown.own t h.1)

/-- The 31 commands of the handler with the states they are issued in. -/
def awaitedSteps : List (Sys ℕ × Act) := traceM (Sys.next counter) (freshSys 32) awaited

/-- The ring has room for 31 commands beside the one that the main thread waits for. -/
theorem awaited_ownSlots : ∃ s, Run (Step counter) (freshSys 32) awaitedSteps s ∧
    awaitedSteps.map Prod.snd = awaited ∧ (s.job .main).Outstanding ∧
    AllSteps InTime awaitedSteps ∧ Throughout OwnSlots awaitedSteps s := by
  have hawaited : ((awaited.foldlM (Sys.next counter) (freshSys 32)).any
      fun s => decide (s.job .main).Outstanding) = true := by decide +kernel
  have htime : ∀ p ∈ awaitedSteps, InTime p.1 p.2 := by decide +kernel
  obtain ⟨s, hs, hout⟩ := (Option.any_eq_true ..).mp hawaited
  obtain ⟨hrun, hacts⟩ := run_traceM hs
  have hinit : Init (freshSys 32) := freshSys_init (by decide) (by decide)
  exact ⟨s, hrun, hacts, of_decide_eq_true hout, htime, (ownSlots_iff_inTime hinit hrun).mpr htime⟩

/-- The last of the 32 commands is written to the slot that the main thread waits for. -/
theorem lapped_not_ownSlots : ∃ acts s, Run (Step counter) (freshSys 32) acts s ∧
    acts.map Prod.snd = lapped ∧ ¬ Throughout OwnSlots acts s := by
  have hlapped : ((lapped.foldlM (Sys.next counter) (freshSys 32)).any
      fun s => overwritten s .main) = true := by decide +kernel
  obtain ⟨s, hs, hover⟩ := (Option.any_eq_true ..).mp hlapped
  obtain ⟨hrun, hacts⟩ := run_traceM hs
  exact ⟨_, s, hrun, hacts, not_throughout (not_ownSlots_of_overwritten hover)⟩

end L4Rdma.CMD
