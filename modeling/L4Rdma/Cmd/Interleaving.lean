import L4Rdma.Cmd.Threads

/-!
# Commands of two threads in the same mailboxes

All commands share one input and one output mailbox, and nothing keeps the two threads and the device
from using them at the same time. `Apart` says when they do not: no thread puts a long input into
the input mailbox or shortens the chain of the output mailbox while the device has yet to execute a
command of the other thread that needs it, and the device does not execute a command with a long
output while the other thread has yet to take its own long output. As long as all steps are `Apart`,
every command is executed as its thread has passed it, and every thread gets the words that the
device has replied to its command (`ownData_of_apart`). The driver does not see to it.
-/

namespace L4Rdma.CMD

open Lib Device

variable {δ : Type} {D : HCA δ} {s s' : Sys δ} {t u : Thread} {slot : ℕ}

/-- Every command has been executed as it had been passed, and every output that a thread has got is
what the device had replied to its command. -/
structure OwnData (s : Sys δ) : Prop where
  seen : ∀ p ∈ s.seen, p.2 = some p.1
  fetched : ∀ p ∈ s.fetched, p.2 = some p.1

/-- A thread still needs the slot and the mailboxes for its command. -/
def Job.InUse (j : Job) : Prop := j.phase = .created ∨ j.phase = .rung ∨ j.phase = .validated

/-- The number of the last block of the output mailbox that a command needs. -/
def Job.lastBlock (j : Job) : ℕ := (j.request.output_length - 3) / 128

/-- A command may be created beside the command of the other thread. -/
structure Beside (size : ℕ) (q : Request) (j : Job) : Prop where
  /-- The head does not reach the slot of the other command. -/
  slot : j.behind + 1 < size
  /-- Only one of them needs the input mailbox, as long as the device may still read it. -/
  input : j.reply = none → 2 < q.payload_length → j.request.payload_length ≤ 2
  /-- The chain in the output mailbox stays long enough for the other command. -/
  output : j.reply = none → 2 < q.output_length → 2 < j.request.output_length →
    j.lastBlock ≤ (q.output_length - 3) / 128

/-- The threads and the device keep apart in the slots and mailboxes. -/
def Apart (s : Sys δ) : Act → Prop
  | .create t q _ => q.Ok ∧ ((s.job t.other).InUse → Beside s.args.cq.size q (s.job t.other))
  | .exec slot => ∀ t, (s.job t).InUse → (s.job t).slot = slot →
    2 < (s.job t).request.output_length → (s.job t.other).InUse → (s.job t.other).reply ≠ none →
    (s.job t.other).fetches = true → (s.job t.other).request.output_length ≤ 2
  | _ => True

/-- Whether a job is in use can be read off its phase. -/
instance (j : Job) : Decidable j.InUse := inferInstanceAs (Decidable (_ ∨ _))

/-- Whether a request is within the limits is four comparisons. -/
instance (q : Request) : Decidable q.Ok :=
  decidable_of_iff ((q.payload_length ≤ 2 + IMB_MAX_DATA ∧ q.payload_length ≤ q.payload.size) ∧
      q.output_length ≤ 2 + OMB_MAX_DATA ∧ q.output_length ≤ q.output.size)
    ⟨fun h => ⟨⟨h.1.1, h.1.2, h.2.1⟩, h.2.2⟩,
      fun h => ⟨⟨h.payload_le, h.payload_size⟩, h.output_le, h.output_size⟩⟩

/-- `Beside` compares the lengths of the two commands. -/
instance (size : ℕ) (q : Request) (j : Job) : Decidable (Beside size q j) :=
  decidable_of_iff (j.behind + 1 < size ∧
      (j.reply = none → 2 < q.payload_length → j.request.payload_length ≤ 2) ∧
      (j.reply = none → 2 < q.output_length → 2 < j.request.output_length →
        j.lastBlock ≤ (q.output_length - 3) / 128))
    ⟨fun h => ⟨h.1, h.2.1, h.2.2⟩, fun h => ⟨h.slot, h.input, h.output⟩⟩

/-- A condition on both threads is one on each of them. -/
instance {P : Thread → Prop} [DecidablePred P] : Decidable (∀ t, P t) :=
  decidable_of_iff (P .main ∧ P .handler)
    ⟨fun h t => by cases t; exacts [h.1, h.2], fun h => ⟨h .main, h .handler⟩⟩

/-- Whether a step keeps apart can be computed from the state before it. -/
instance (s : Sys δ) : (act : Act) → Decidable (Apart s act)
  | .create _ _ _ => inferInstanceAs (Decidable (_ ∧ _))
  | .exec _ => inferInstanceAs (Decidable (∀ _, _))
  | .ring _ | .validate _ | .fetch _ => .isTrue trivial

/-! ## Commands that wait for the device -/

/-- The entry and the mailboxes are as `createCqe` has left them for a command. -/
structure Waiting (a : CMD_Args) (slot : ℕ) (q : Request) : Prop where
  cqe : a.cqe slot = newCqe a q.opcode q.op_mod q.payload q.payload_length q.output_length
  input : Holds a.imb_mem q.payload q.payload_length a.mbb
  output : 2 < q.output_length → Chain a.omb_mem ((q.output_length - 3) / 128) a.mbb

variable {a a' : CMD_Args} {q q' : Request} {mbb mbb' mbb₁ : ℕ → MBB} {m m' : MEM.DmaMem}

/-- A new entry depends only on where the mailboxes are. -/
theorem newCqe_congr {opcode : OPCODE} {op_mod : Word} {payload : Buf}
    {payload_length output_length : ℕ} (himb : a'.imb_mem = a.imb_mem)
    (homb : a'.omb_mem = a.omb_mem) :
    newCqe a' opcode op_mod payload payload_length output_length =
      newCqe a opcode op_mod payload payload_length output_length := by
  unfold newCqe
  rw [himb, homb]

/-- Putting a payload into one mailbox leaves the words of another one. -/
theorem InputMail.mailWord_eq {payload : Buf} {payload_length : ℕ}
    (h : InputMail m payload payload_length mbb mbb') (hdisj : Disjoint m m')
    (hle : payload_length ≤ 2 + IMB_MAX_DATA) {j : ℕ} (hj : j / 128 < MBB_MAX_COUNT) :
    mailWord m' mbb' j = mailWord m' mbb j := by
  unfold InputMail at h
  split_ifs at h with hlong
  · obtain ⟨mbb₁, hpacked, htied⟩ := h
    have hdata := hpacked.other (blockAddr m' (j / 128)) (j % 128) fun i hi he =>
      absurd he.symm (hdisj.blockAddr_ne (block_lt (by omega)) hj)
    rw [mailWord, htied.data, hdata, mailWord]
  · rw [h]

/-- It leaves the chains of another mailbox. -/
theorem InputMail.chain_of {payload : Buf} {payload_length n : ℕ}
    (h : InputMail m payload payload_length mbb mbb') (hdisj : Disjoint m m')
    (hle : payload_length ≤ 2 + IMB_MAX_DATA) (hn : n < MBB_MAX_COUNT) (hchain : Chain m' n mbb) :
    Chain m' n mbb' := by
  unfold InputMail at h
  split_ifs at h with hlong
  · obtain ⟨mbb₁, hpacked, htied⟩ := h
    intro k hk
    have hlast : (payload_length - 3) / 128 < MBB_MAX_COUNT := block_lt (by omega)
    rw [htied.other _ fun i hi => (hdisj.blockAddr_ne (by omega) (by omega)).symm, hpacked.next]
    exact hchain k hk
  · rwa [h]

/-- Setting up the output mailbox leaves all words. -/
theorem OutputMail.mailWord_eq {output_length : ℕ} (h : OutputMail m output_length mbb mbb')
    (j : ℕ) : mailWord m' mbb' j = mailWord m' mbb j := by
  unfold OutputMail at h
  split_ifs at h with hlong
  · rw [mailWord, h.data, mailWord]
  · rw [h]

/-- It leaves a chain in the same mailbox that is not longer. -/
theorem OutputMail.chain_of {output_length n : ℕ} (h : OutputMail m output_length mbb mbb')
    (hn : 2 < output_length → n ≤ (output_length - 3) / 128) (hchain : Chain m n mbb) :
    Chain m n mbb' := by
  unfold OutputMail at h
  split_ifs at h with hlong
  · exact h.chain.mono (hn hlong)
  · rwa [h]

/-- A waiting command is not disturbed by a command that is created beside it. -/
theorem Waiting.create (h : Waiting a slot q) (hready : Ready a) (hq : q.Ok) (hq' : q'.Ok)
    (hinput : 2 < q'.payload_length → q.payload_length ≤ 2)
    (houtput : 2 < q'.output_length → 2 < q.output_length →
      (q.output_length - 3) / 128 ≤ (q'.output_length - 3) / 128)
    (himb : a'.imb_mem = a.imb_mem) (homb : a'.omb_mem = a.omb_mem)
    (hcqe : a'.cqe slot = a.cqe slot)
    (hin : InputMail a.imb_mem q'.payload q'.payload_length a.mbb mbb₁)
    (hout : OutputMail a.omb_mem q'.output_length mbb₁ a'.mbb) : Waiting a' slot q := by
  refine ⟨?_, ?_, fun hlong => ?_⟩
  · rw [hcqe, h.cqe, newCqe_congr himb homb]
  · -- The input mailbox has been written only if the other command does not need it.
    rw [himb]
    intro hlong
    have hsame : mbb₁ = a.mbb := by
      unfold InputMail at hin
      rwa [if_neg fun hlong' => absurd (hinput hlong') (Nat.not_le_of_lt hlong)] at hin
    subst hsame
    exact h.input.outputMail hready.disjoint hq.payload_le hq'.output_le hout hlong
  · rw [homb]
    have hle : q.output_length ≤ 2 + IMB_MAX_DATA := hq.output_le
    have hlast : (q.output_length - 3) / 128 < MBB_MAX_COUNT := block_lt (by omega)
    exact hout.chain_of (fun hlong' => houtput hlong' hlong)
      (hin.chain_of hready.disjoint hq'.payload_le hlast (h.output hlong))

/-- The words of a reply stay when another command is created. -/
theorem Answered.create {output_length : ℕ} {r : Reply} (h : Answered a slot output_length r)
    (hready : Ready a) (hle : output_length ≤ 2 + IMB_MAX_DATA) (hq' : q'.Ok)
    (homb : a'.omb_mem = a.omb_mem) (hcqe : a'.cqe slot = a.cqe slot)
    (hin : InputMail a.imb_mem q'.payload q'.payload_length a.mbb mbb₁)
    (hout : OutputMail a.omb_mem q'.output_length mbb₁ a'.mbb) :
    Answered a' slot output_length r := by
  refine ⟨by rw [hcqe, h.ctrl], by rw [hcqe, h.status], fun i hi => ?_, fun j hj => ?_⟩
  · rw [hcqe]
    exact h.inline i hi
  · rw [homb, hout.mailWord_eq,
      hin.mailWord_eq hready.disjoint hq'.payload_le (block_lt (show j < IMB_MAX_DATA by omega))]
    exact h.mail j hj

/-- A waiting command is not disturbed by the device's reply to another command. -/
theorem Waiting.replied {slot' : ℕ} {r : Reply} (h : Waiting a slot q) (hready : Ready a)
    (hq : q.Ok) (hq' : q'.Ok) (hne : slot ≠ slot')
    (hpacked : Packed a.omb_mem (fun j => r.output (2 + j)) (q'.output_length - 2) a.mbb
      (complete a slot' r).mbb) : Waiting (complete a slot' r) slot q := by
  refine ⟨?_, fun hlong => ?_, fun hlong => (h.output hlong).congr hpacked.header⟩
  · have hcqe : (complete a slot' r).cqe slot = a.cqe slot := setCqe_cqe_of_ne hne _
    rw [hcqe, h.cqe]
    exact newCqe_congr rfl rfl
  · obtain ⟨hchain, hwords⟩ := h.input hlong
    refine ⟨hchain.congr hpacked.header, fun j hj => ?_⟩
    have hle := hq.payload_le
    have hle' : q'.output_length ≤ 2 + IMB_MAX_DATA := hq'.output_le
    have hdata := hpacked.other (blockAddr a.imb_mem (j / 128)) (j % 128) fun i hi he =>
      absurd he (hready.disjoint.blockAddr_ne (block_lt (show j < IMB_MAX_DATA by omega))
        (block_lt (show i < IMB_MAX_DATA by omega)))
    show ioread32be (((complete a slot' r).mbb (blockAddr a.imb_mem (j / 128))).mailbox_data
      (j % 128)) = q.payload.word (2 + j)
    rw [hdata]
    exact hwords j hj

/-- The words of a reply stay when the device replies to another command, if not both of them have
a long output. -/
theorem Answered.replied {slot' output_length n : ℕ} {r r' : Reply}
    (h : Answered a slot output_length r) (hne : slot ≠ slot')
    (hshort : 2 < n → output_length ≤ 2)
    (hpacked : Packed a.omb_mem (fun j => r'.output (2 + j)) (n - 2) a.mbb
      (complete a slot' r').mbb) : Answered (complete a slot' r') slot output_length r := by
  have hcqe : (complete a slot' r').cqe slot = a.cqe slot := setCqe_cqe_of_ne hne _
  refine ⟨by rw [hcqe, h.ctrl], by rw [hcqe, h.status], fun i hi => ?_, fun j hj => ?_⟩
  · rw [hcqe]
    exact h.inline i hi
  · have hn : n - 2 = 0 := by
      by_contra hpos
      have := hshort (by omega)
      omega
    have hdata := hpacked.other (blockAddr a.omb_mem (j / 128)) (j % 128) fun i hi =>
      absurd hi (by omega)
    show ioread32be (((complete a slot' r').mbb (blockAddr a.omb_mem (j / 128))).mailbox_data
      (j % 128)) = r.output (2 + j)
    rw [hdata]
    exact h.mail j hj

/-! ## The invariant -/

/-- What holds for a command that its thread still needs the slot and the mailboxes for. -/
structure JobInv (s : Sys δ) (t : Thread) : Prop where
  fits : (s.job t).request.Ok
  own : s.issuer (s.job t).slot = some t
  passed : s.passed (s.job t).slot = some (s.job t).request.command
  slot_lt : (s.job t).slot < s.args.cq.size
  behind_lt : (s.job t).behind < s.args.cq.size
  head : s.args.cq.head = ((s.job t).slot + 1 + (s.job t).behind) % s.args.cq.size
  created : (s.job t).phase = .created → (s.job t).reply = none
  validated : (s.job t).phase = .validated → (s.job t).reply ≠ none ∧ (s.job t).fetches = true
  waiting : (s.job t).reply = none → Waiting s.args (s.job t).slot (s.job t).request
  answered : ∀ r, (s.job t).reply = some r → (s.job t).fetches = true →
    Answered s.args (s.job t).slot (s.job t).request.output_length r

/-- A slot whose doorbell has been rung is that of a command that the device has not executed. -/
def Rung (s : Sys δ) (slot : ℕ) : Prop :=
  ∃ t, (s.job t).phase = .rung ∧ (s.job t).slot = slot ∧ (s.job t).reply = none

/-- The invariant of steps that keep apart. -/
structure DataInv (s : Sys δ) : Prop where
  ready : Ready s.args
  jobs : ∀ t, (s.job t).InUse → JobInv s t
  nodup : s.args.rung.Nodup
  rung : ∀ slot ∈ s.args.rung, Rung s slot
  data : OwnData s

/-- Two commands that are in use have different slots. -/
theorem JobInv.eq_of_slot (h : JobInv s t) (h' : JobInv s u)
    (hslot : (s.job u).slot = (s.job t).slot) : u = t := by
  have hown := h'.own
  rw [hslot, h.own] at hown
  exact (Option.some.inj hown).symm

/-- A command whose doorbell has been rung is in use. -/
theorem Job.InUse.of_rung {j : Job} (h : j.phase = .rung) : j.InUse := .inr (.inl h)

/-- A command that waits depends on its entry and the mailboxes only. -/
theorem Waiting.congr (h : Waiting a slot q) (hcqe : a'.cqe slot = a.cqe slot)
    (himb : a'.imb_mem = a.imb_mem) (homb : a'.omb_mem = a.omb_mem) (hmbb : a'.mbb = a.mbb) :
    Waiting a' slot q := by
  refine ⟨?_, ?_, ?_⟩
  · rw [hcqe, newCqe_congr himb homb]
    exact h.cqe
  · rw [himb, hmbb]
    exact h.input
  · rw [homb, hmbb]
    exact h.output

/-- So do the words of a reply. -/
theorem Answered.congr {output_length : ℕ} {r : Reply} (h : Answered a slot output_length r)
    (hcqe : a'.cqe slot = a.cqe slot) (homb : a'.omb_mem = a.omb_mem) (hmbb : a'.mbb = a.mbb) :
    Answered a' slot output_length r := by
  refine ⟨by rw [hcqe, h.ctrl], by rw [hcqe, h.status], fun i hi => ?_, fun j hj => ?_⟩
  · rw [hcqe]
    exact h.inline i hi
  · rw [homb, hmbb]
    exact h.mail j hj

/-- A command keeps its slot when the commands before and after it stay the same. -/
theorem JobInv.of_job {j : Job} (h : JobInv s t) (hjob : s'.job t = j)
    (hplace : j.request = (s.job t).request ∧ j.slot = (s.job t).slot ∧
      j.behind = (s.job t).behind)
    (hsame : s'.issuer = s.issuer ∧ s'.passed = s.passed ∧ s'.args.cq = s.args.cq)
    (hcreated : j.phase = .created → j.reply = none)
    (hvalidated : j.phase = .validated → j.reply ≠ none ∧ j.fetches = true)
    (hwaiting : j.reply = none → Waiting s'.args (s.job t).slot (s.job t).request)
    (hanswered : ∀ r, j.reply = some r → j.fetches = true →
      Answered s'.args (s.job t).slot (s.job t).request.output_length r) : JobInv s' t := by
  obtain ⟨hrequest, hslot, hbehind⟩ := hplace
  obtain ⟨hissuer, hpassed, hcq⟩ := hsame
  constructor
  -- Each field of the invariant reads the job, which is the one given.
  all_goals rw [hjob]
  · -- The request and the slot are those of before.
    rw [hrequest]
    exact h.fits
  · rw [hissuer, hslot]
    exact h.own
  · -- So is what the thread has passed to `create_cqe`.
    rw [hpassed, hslot, hrequest]
    exact h.passed
  · -- The ring has not moved, so the distance of the slot from its head is the same.
    rw [hcq, hslot]
    exact h.slot_lt
  · rw [hcq, hbehind]
    exact h.behind_lt
  · rw [hcq, hslot, hbehind]
    exact h.head
  · -- What depends on the phase and on the reply is given.
    exact hcreated
  · exact hvalidated
  · rw [hslot, hrequest]
    exact hwaiting
  · rw [hslot, hrequest]
    exact hanswered

/-- A doorbell stays rung as long as the thread that has rung it stays. -/
theorem Rung.of_job (hrung : (s.job u).phase = .rung) (hslot : (s.job u).slot = slot)
    (hreply : (s.job u).reply = none) (hjob : s'.job u = s.job u) : Rung s' slot := by
  refine ⟨u, ?_, ?_, ?_⟩
  all_goals rw [hjob]
  · exact hrung
  · exact hslot
  · exact hreply

/-- Creating a command beside the other one keeps the invariant. -/
theorem DataInv.create {fetches : Bool} (h : DataInv s) (hstep : Step D s (.create t q fetches) s')
    (hapart : Apart s (.create t q fetches)) : DataInv s' := by
  obtain ⟨hq, hbeside⟩ := hapart
  obtain ⟨hidle, args, hcreate, rfl⟩ := hstep.create_cases
  have hready := h.ready
  obtain ⟨mbb₁, mbb', hcreate', hin, hout⟩ :=
    createCqe_ok hready hq.toFits q.opcode q.op_mod
  obtain rfl := (EStateM.Result.ok.inj (hcreate.symm.trans hcreate')).2
  have hpos : 0 < s.args.cq.size := hready.size_pos
  have hsize : s.args.cq.size ≤ 2 ^ 32 := Nat.le_trans hready.size_le (by decide)
  -- The new command takes the slot at the head, which moves on by one.
  have hhead : (Q.enqueue s.args.cq).2.head = (s.args.cq.head + 1) % s.args.cq.size :=
    Q.enqueue_head hsize hready.head
  -- The other command has another slot: it would be as old as the ring is long otherwise.
  have hother : (s.job t.other).InUse → (s.job t.other).slot ≠ s.args.cq.head := fun hu he => by
    have hjob := h.jobs t.other hu
    have hreached := (add_mod_eq_iff hjob.slot_lt hjob.behind_lt).mp
      (hjob.head.symm.trans he.symm)
    have hslot := (hbeside hu).slot
    omega
  refine ⟨hready.samePlace ⟨rfl, rfl, rfl⟩ (Q.enqueue_head_lt hpos), fun u hu => ?_, h.nodup,
    fun slot hslot => ?_, ⟨h.data.seen, h.data.fetched⟩⟩
  · rcases t.eq_or_eq_other u with rfl | rfl
    · -- The new command.
      constructor
      all_goals rw [issued_job_self]
      · exact hq
      · exact Function.update_self _ _ _
      · exact Function.update_self _ _ _
      · exact hready.head
      · exact hpos
      · exact hhead
      · exact fun _ => rfl
      · exact fun hphase => by cases hphase
      · -- Its payload and the chain for its output are in the mailboxes.
        exact fun _ => ⟨Function.update_self _ _ _,
          hin.holds.outputMail hready.disjoint hq.payload_le hq.output_le hout, hout.chain⟩
      · exact fun r hr => by cases hr
    · -- The command of the other thread.
      rw [issued_job_other] at hu
      have hne := hother hu
      have hjob := h.jobs t.other hu
      have hbeside := hbeside hu
      constructor
      all_goals rw [issued_job_other]
      · exact hjob.fits
      · exact (Function.update_of_ne hne _ _).trans hjob.own
      · exact (Function.update_of_ne hne _ _).trans hjob.passed
      · exact hjob.slot_lt
      · exact hbeside.slot
      · -- It is one command older now.
        show (Q.enqueue s.args.cq).2.head =
          ((s.job t.other).slot + 1 + ((s.job t.other).behind + 1)) % s.args.cq.size
        rw [hhead, hjob.head, Nat.mod_add_mod, Nat.add_assoc]
      · exact hjob.created
      · exact hjob.validated
      · -- Its own payload and chain are not touched, since the commands keep apart.
        exact fun hr => (hjob.waiting hr).create hready hjob.fits hq (hbeside.input hr)
          (hbeside.output hr) rfl rfl (Function.update_of_ne hne _ _) hin hout
      · exact fun r hr hfetches => (hjob.answered r hr hfetches).create hready hjob.fits.output_le
          hq rfl (Function.update_of_ne hne _ _) hin hout
  · -- The thread that creates a command is not one whose doorbell has been rung.
    obtain ⟨u, hrung, hu, hreply⟩ := h.rung slot hslot
    rcases t.eq_or_eq_other u with rfl | rfl
    · rw [hidle] at hrung
      cases hrung
    · refine ⟨t.other, ?_, ?_, ?_⟩
      all_goals rw [issued_job_other]
      · exact hrung
      · exact hu
      · exact hreply

/-- The system after a thread has gone on to another phase. The doorbells and the outputs may
change. -/
def Sys.goOn (s : Sys δ) (t : Thread) (phase : Phase) (dbv : Word) (rung : List ℕ)
    (fetched : List (List Word × Option (List Word))) : Sys δ :=
  { s with
    args := { s.args with dbv := dbv, rung := rung }
    job := Function.update s.job t { s.job t with phase := phase }
    fetched := fetched }

/-- The thread that goes on is in its new phase. -/
theorem goOn_job_self {phase : Phase} {dbv : Word} {rung : List ℕ}
    {fetched : List (List Word × Option (List Word))} :
    (s.goOn t phase dbv rung fetched).job t = { s.job t with phase := phase } :=
  Function.update_self _ _ _

/-- The other thread stays where it is. -/
theorem goOn_job_of_ne {phase : Phase} {dbv : Word} {rung : List ℕ}
    {fetched : List (List Word × Option (List Word))} (h : u ≠ t) :
    (s.goOn t phase dbv rung fetched).job u = s.job u :=
  Function.update_of_ne h _ _

/-- The arguments stay ready when a thread goes on. -/
theorem Ready.goOn {phase : Phase} {dbv : Word} {rung : List ℕ}
    {fetched : List (List Word × Option (List Word))} (h : Ready s.args) :
    Ready (s.goOn t phase dbv rung fetched).args :=
  ⟨h.size_pos, h.size_le, h.head, h.imb, h.omb, h.disjoint⟩

/-- What holds for the commands stays when a thread goes on. -/
theorem DataInv.goOn_jobs {phase : Phase} {dbv : Word} {rung : List ℕ}
    {fetched : List (List Word × Option (List Word))} (h : DataInv s) (huse : (s.job t).InUse)
    (hcreated : phase ≠ .created)
    (hvalidated : phase = .validated → (s.job t).reply ≠ none ∧ (s.job t).fetches = true) :
    ∀ u, ((s.goOn t phase dbv rung fetched).job u).InUse →
      JobInv (s.goOn t phase dbv rung fetched) u := by
  intro u hu
  by_cases he : u = t
  · subst he
    have hjob := h.jobs u huse
    refine hjob.of_job goOn_job_self ⟨rfl, rfl, rfl⟩ ⟨rfl, rfl, rfl⟩
      (fun hphase => absurd hphase hcreated) hvalidated (fun hr => ?_) fun r hr hfetches => ?_
    · exact (hjob.waiting hr).congr rfl rfl rfl rfl
    · exact (hjob.answered r hr hfetches).congr rfl rfl rfl
  · rw [goOn_job_of_ne he] at hu
    have hjob := h.jobs u hu
    refine hjob.of_job (goOn_job_of_ne he) ⟨rfl, rfl, rfl⟩ ⟨rfl, rfl, rfl⟩ hjob.created
      hjob.validated (fun hr => ?_) fun r hr hfetches => ?_
    · exact (hjob.waiting hr).congr rfl rfl rfl rfl
    · exact (hjob.answered r hr hfetches).congr rfl rfl rfl

/-- Ringing a doorbell keeps the invariant. -/
theorem DataInv.ring (h : DataInv s) (hstep : Step D s (.ring t) s') : DataInv s' := by
  obtain ⟨hcreated, -, hs'⟩ := hstep.ring_cases
  have huse : (s.job t).InUse := .inl hcreated
  have hjob := h.jobs t huse
  have hreply := hjob.created hcreated
  replace hs' : s' = s.goOn t .rung (iowrite32be ([(s.job t).slot].map fun i => (1 : Word) <<< i).sum)
    (s.args.rung ++ [(s.job t).slot]) s.fetched := hs'
  subst hs'
  have hnew : (s.job t).slot ∉ s.args.rung := fun hmem => by
    obtain ⟨u, hrung, hslot, -⟩ := h.rung _ hmem
    obtain rfl := hjob.eq_of_slot (h.jobs u (.of_rung hrung)) hslot
    rw [hcreated] at hrung
    cases hrung
  refine ⟨h.ready.goOn, h.goOn_jobs huse (by decide) (fun hphase => by cases hphase), ?_,
    fun slot hslot => ?_, ⟨h.data.seen, h.data.fetched⟩⟩
  · exact List.nodup_append.mpr ⟨h.nodup, List.nodup_singleton _, fun a ha b hb he => by
      obtain rfl := List.mem_singleton.mp hb
      exact hnew (he ▸ ha)⟩
  · rcases List.mem_append.mp hslot with hold | hself
    · obtain ⟨u, hrung, hu, hr⟩ := h.rung slot hold
      have hne : u ≠ t := fun he => by
        rw [he, hcreated] at hrung
        cases hrung
      exact .of_job hrung hu hr (goOn_job_of_ne hne)
    · obtain rfl := List.mem_singleton.mp hself
      exact ⟨t, by rw [goOn_job_self], by rw [goOn_job_self], by rw [goOn_job_self]; exact hreply⟩

/-- The slots whose doorbells have been rung when a thread goes on whose command has been
replied to. -/
theorem DataInv.goOn_rung {phase : Phase} {dbv : Word}
    {fetched : List (List Word × Option (List Word))} (h : DataInv s)
    (hreply : (s.job t).reply ≠ none) :
    ∀ slot ∈ s.args.rung, Rung (s.goOn t phase dbv s.args.rung fetched) slot := by
  intro slot hslot
  obtain ⟨u, hrung, hu, hr⟩ := h.rung slot hslot
  have hne : u ≠ t := fun he => hreply (he ▸ hr)
  exact .of_job hrung hu hr (goOn_job_of_ne hne)

/-- Validating a command keeps the invariant. -/
theorem DataInv.validate (h : DataInv s) (hstep : Step D s (.validate t) s') : DataInv s' := by
  obtain ⟨hrung, hsw, hs'⟩ := hstep.validate_cases
  have huse : (s.job t).InUse := .of_rung hrung
  have hjob := h.jobs t huse
  have hreply : (s.job t).reply ≠ none := fun hr => by
    have hcqe := (hjob.waiting hr).cqe
    exact hsw (ownedByHw_of_ctrl (by rw [hcqe]; rfl))
  have hphase : s.validated t ≠ .created := by
    unfold Sys.validated
    split
    · split_ifs <;> decide
    · decide
  have hvalidated : s.validated t = .validated → (s.job t).fetches = true := by
    unfold Sys.validated
    split
    · split_ifs with hf
      · exact fun _ => hf
      · exact fun hv => by cases hv
    · exact fun hv => by cases hv
  replace hs' : s' = s.goOn t (s.validated t) s.args.dbv s.args.rung s.fetched := hs'
  subst hs'
  exact ⟨h.ready.goOn, h.goOn_jobs huse hphase fun hv => ⟨hreply, hvalidated hv⟩, h.nodup,
    h.goOn_rung hreply, ⟨h.data.seen, h.data.fetched⟩⟩

/-- A thread gets the words that the device has replied to its command. -/
theorem DataInv.fetch (h : DataInv s) (hstep : Step D s (.fetch t) s') : DataInv s' := by
  obtain ⟨hvalidated, output, args, hget, hs'⟩ := hstep.fetch_cases
  have huse : (s.job t).InUse := .inr (.inr hvalidated)
  have hjob := h.jobs t huse
  obtain ⟨hreply, hfetches⟩ := hjob.validated hvalidated
  obtain ⟨r, hr⟩ := Option.ne_none_iff_exists'.mp hreply
  obtain ⟨output', hget', -, hwords⟩ := getCmdOutput_ok (hjob.answered r hr hfetches)
    hjob.fits.output_le hjob.fits.output_size
  obtain rfl : output = output' := (EStateM.Result.ok.inj (hget.symm.trans hget')).1
  have houtput : Buf.words output (s.job t).request.output_length =
      (List.range (s.job t).request.output_length).map r.output :=
    List.map_congr_left fun i hi => hwords i (List.mem_range.mp hi)
  rw [hr, houtput] at hs'
  replace hs' : s' = s.goOn t .idle s.args.dbv s.args.rung _ := hs'
  subst hs'
  refine ⟨h.ready.goOn, h.goOn_jobs huse (by decide) (fun hv => by cases hv), h.nodup,
    h.goOn_rung hreply, h.data.seen, fun p hp => ?_⟩
  rcases List.mem_append.mp hp with hold | hnew
  · exact h.data.fetched p hold
  · obtain rfl := List.mem_singleton.mp hnew
    rfl

/-- The command that the device executes is the one that its thread has passed. -/
theorem DataInv.readCommand_rung (h : DataInv s) (hrung : (s.job t).phase = .rung)
    (hreply : (s.job t).reply = none) :
    readCommand s.args (s.job t).slot = (s.job t).request.command := by
  have hjob := h.jobs t (.of_rung hrung)
  have hwaiting := hjob.waiting hreply
  exact readCommand_eq h.ready.imb hjob.fits.toFits hwaiting.cqe hwaiting.input

/-- Executing a command of thread `t` changes only the reply of that command. -/
theorem JobInv.exec_job (hjob : JobInv s t) (D : HCA δ) :
    (s.exec D (s.job t).slot).job t = { s.job t with
      reply := some (D.exec s.dev (readCommand s.args (s.job t).slot)).2 } ∧
    ∀ u, u ≠ t → (s.exec D (s.job t).slot).job u = s.job u := by
  refine ⟨?_, fun u hne => ?_⟩
  · rw [CMD.exec_job, if_pos ⟨hjob.own, rfl⟩]
  · rw [CMD.exec_job, if_neg fun hc => hne (Option.some.inj (hc.1.symm.trans hjob.own))]

/-- What holds for the commands when the device has executed one: that one has been replied to, and
the device has kept apart from the other one. -/
theorem DataInv.exec_jobs (h : DataInv s) (hrung : (s.job t).phase = .rung)
    (hreply : (s.job t).reply = none) (hapart : Apart s (.exec (s.job t).slot)) :
    ∀ u, ((s.exec D (s.job t).slot).job u).InUse → JobInv (s.exec D (s.job t).slot) u := by
  have huse : (s.job t).InUse := .of_rung hrung
  have hjob := h.jobs t huse
  have hfits := hjob.fits
  have hwaiting := hjob.waiting hreply
  obtain ⟨hself, hother⟩ := hjob.exec_job D
  let r := (D.exec s.dev (readCommand s.args (s.job t).slot)).2
  let a : CMD_Args := { s.args with rung := s.args.rung.erase (s.job t).slot }
  have hready : Ready a := ⟨h.ready.size_pos, h.ready.size_le, h.ready.head, h.ready.imb,
    h.ready.omb, h.ready.disjoint⟩
  -- All that the device writes to the mailboxes is the output of this command.
  have hpacked : Packed a.omb_mem (fun j => r.output (2 + j))
      ((s.job t).request.output_length - 2) a.mbb (complete a (s.job t).slot r).mbb :=
    complete_packed hready.omb hfits.toFits hwaiting.cqe hwaiting.output
  intro u hu
  by_cases he : u = t
  · -- The command that has been executed.
    subst he
    -- It is in the phase after the doorbell, and in no other one.
    have hnot : ∀ phase, phase ≠ .rung → (s.job u).phase ≠ phase := fun phase hne hphase =>
      hne (hphase.symm.trans hrung)
    refine hjob.of_job hself ⟨rfl, rfl, rfl⟩ ⟨rfl, rfl, rfl⟩
      (fun hphase => absurd hphase (hnot _ (by decide)))
      (fun hphase => absurd hphase (hnot _ (by decide))) (fun hr => by cases hr) ?_
    intro r' hr' _
    cases hr'
    exact complete_answered hready.omb hfits.toFits hwaiting.cqe hwaiting.output
  · -- The command of the other thread.
    rw [hother u he] at hu
    have hjob' := h.jobs u hu
    -- Commands in use have different slots.
    have hne : (s.job u).slot ≠ (s.job t).slot := fun hs => he (hjob.eq_of_slot hjob' hs)
    refine hjob'.of_job (hother u he) ⟨rfl, rfl, rfl⟩ ⟨rfl, rfl, rfl⟩ hjob'.created hjob'.validated
      (fun hr => ?_) fun r' hr' hfetches => ?_
    · -- If it waits for its reply, its input and its chain are still there.
      have hwaiting' : Waiting a (s.job u).slot (s.job u).request :=
        (hjob'.waiting hr).congr rfl rfl rfl rfl
      exact hwaiting'.replied hready hjob'.fits hfits hne hpacked
    · -- If it has been replied to and wants its output, that must be short or not be touched.
      have hanswered : Answered a (s.job u).slot (s.job u).request.output_length r' :=
        (hjob'.answered r' hr' hfetches).congr rfl rfl rfl
      obtain rfl : u = t.other := (t.eq_or_eq_other u).resolve_left he
      have hshort := fun hlong => hapart t huse rfl hlong hu (by rw [hr']; simp) hfetches
      exact hanswered.replied hne hshort hpacked

/-- The device executes a command whose doorbell has been rung as it has been passed. -/
theorem DataInv.exec (h : DataInv s) (hstep : Step D s (.exec slot) s')
    (hapart : Apart s (.exec slot)) : DataInv s' := by
  obtain ⟨hmem, -, rfl⟩ := hstep.exec_cases
  obtain ⟨t, hrung, rfl, hreply⟩ := h.rung slot hmem
  have hjob := h.jobs t (.of_rung hrung)
  obtain ⟨-, hother⟩ := hjob.exec_job D
  refine ⟨⟨h.ready.size_pos, h.ready.size_le, h.ready.head, h.ready.imb, h.ready.omb,
    h.ready.disjoint⟩, h.exec_jobs hrung hreply hapart, h.nodup.erase _, fun slot hslot => ?_,
    fun p hp => ?_, h.data.fetched⟩
  · -- The doorbells of other slots are those of the other thread.
    have hold : slot ∈ s.args.rung := List.mem_of_mem_erase hslot
    have hne : slot ≠ (s.job t).slot := fun he => h.nodup.not_mem_erase (he ▸ hslot)
    obtain ⟨u, hrung', hu, hr⟩ := h.rung slot hold
    exact .of_job hrung' hu hr (hother u fun he => hne (he ▸ hu.symm))
  · rcases List.mem_append.mp hp with hold | hnew
    · exact h.data.seen p hold
    · obtain rfl := List.mem_singleton.mp hnew
      rw [h.readCommand_rung hrung hreply]
      exact hjob.passed

/-! ## Whole runs -/

/-- Before the first command, with mailboxes in their places and nothing recorded. -/
structure Start (s : Sys δ) : Prop extends Init s where
  ready : Ready s.args
  seen : s.seen = []
  fetched : s.fetched = []

/-- The invariant for the data holds at the start, when no command is in use. -/
theorem Start.dataInv (h : Start s) : DataInv s := by
  have hidle : ∀ t, ¬ (s.job t).InUse := fun t => by
    rw [Job.InUse, h.idle t]
    decide
  refine ⟨h.ready, fun t ht => absurd ht (hidle t), ?_, ?_, ?_, ?_⟩
  · rw [h.rung]
    exact List.nodup_nil
  · rw [h.rung]
    exact fun slot hslot => by cases hslot
  · rw [h.seen]
    exact fun p hp => by cases hp
  · rw [h.fetched]
    exact fun p hp => by cases hp

/-- Every step that keeps apart keeps the invariant. -/
theorem DataInv.step {act : Act} (h : DataInv s) (hstep : Step D s act s') (hapart : Apart s act) :
    DataInv s' := by
  cases act with
  | create t q fetches => exact h.create hstep hapart
  | ring t => exact h.ring hstep
  | exec slot => exact h.exec hstep hapart
  | validate t => exact h.validate hstep
  | fetch t => exact h.fetch hstep

/-- In a run whose steps keep apart, every command is executed as its thread has passed it, and
every thread gets the words that the device has replied to its command. -/
theorem ownData_of_apart {s₀ : Sys δ} {acts : List (Sys δ × Act)} (hstart : Start s₀)
    (hrun : Run (Step D) s₀ acts s) (hapart : AllSteps Apart acts) : Throughout OwnData acts s :=
  (hrun.inv (G := Apart) hstart.dataInv (fun _ _ _ h hstep ha => h.step hstep ha) hapart).mono
    fun _ h => h.data

/-! ## A query and a page that is reclaimed -/

/-- A fresh system is one at its start. -/
theorem freshSys_start {size : ℕ} (hpos : 1 ≤ size) (hle : size ≤ 32) : Start (freshSys size) where
  toInit := freshSys_init hpos hle
  ready := (freshArgs_idle hpos hle).toReady
  seen := rfl
  fetched := rfl

/-- The command of `reclaim_pages` for one page. -/
def reclaimOne : Request := { Request.ofList .MANAGE_PAGES [0, 1] 4 with op_mod := 2 }

/-- While the device has yet to execute a query of the main thread, the handler provides a page, and
the device executes that command first. The handler then creates the command that reclaims the page,
and the main thread takes its output before the device executes it. -/
def interleaved : List Act :=
  [.create .main queryEq true, .ring .main, .create .handler provideOne false, .ring .handler,
    .exec 1, .exec 0, .validate .handler, .create .handler reclaimOne true, .ring .handler,
    .validate .main, .fetch .main, .exec 2, .validate .handler, .fetch .handler]

/-- The main thread queries the state of an event queue, and the handler reclaims a page before the
main thread takes the output. -/
def mixed : List Act :=
  [.create .main queryEq true, .ring .main, .exec 0, .validate .main,
    .create .handler reclaimOne true, .ring .handler, .exec 1, .fetch .main]

/-- The steps of the interleaved commands with the states they are taken in. -/
def interleavedSteps : List (Sys ℕ × Act) := traceM (Sys.next counter) (freshSys 32) interleaved

/-- Each of three commands of the two threads is executed as it has been passed, and both long outputs
arrive. -/
theorem interleaved_ownData : ∃ s, Run (Step counter) (freshSys 32) interleavedSteps s ∧
    interleavedSteps.map Prod.snd = interleaved ∧ s.seen.length = 3 ∧ s.fetched.length = 2 ∧
    Throughout OwnData interleavedSteps s := by
  have hall : ((interleaved.foldlM (Sys.next counter) (freshSys 32)).any
      fun s => s.seen.length == 3 && s.fetched.length == 2) = true := by decide +kernel
  -- The query and the page are in flight together, but only one of them has a long payload, and
  -- only the query a long output.
  have hapart : ∀ p ∈ interleavedSteps, Apart p.1 p.2 := by decide +kernel
  obtain ⟨s, hs, hcount⟩ := (Option.any_eq_true ..).mp hall
  simp only [Bool.and_eq_true, beq_iff_eq] at hcount
  obtain ⟨hrun, hacts⟩ := run_traceM hs
  have hstart : Start (freshSys 32) := freshSys_start (by decide) (by decide)
  exact ⟨s, hrun, hacts, hcount.1, hcount.2, ownData_of_apart hstart hrun hapart⟩

/-- The main thread gets the address of the page that the handler reclaims instead of the state of
the queue. -/
theorem mixed_not_ownData : ∃ acts s, Run (Step counter) (freshSys 32) acts s ∧
    acts.map Prod.snd = mixed ∧ ¬ Throughout OwnData acts s := by
  have hmixed : ((mixed.foldlM (Sys.next counter) (freshSys 32)).any
      fun s => s.fetched.any fun p => p.2 != some p.1) = true := by decide +kernel
  obtain ⟨s, hs, hlost⟩ := (Option.any_eq_true ..).mp hmixed
  obtain ⟨p, hp, hne⟩ := List.any_eq_true.mp hlost
  obtain ⟨hrun, hacts⟩ := run_traceM hs
  have hnot : ¬ OwnData s := fun h => by
    rw [h.fetched p hp, bne_self_eq_false] at hne
    cases hne
  exact ⟨_, s, hrun, hacts, not_throughout hnot⟩

end L4Rdma.CMD
