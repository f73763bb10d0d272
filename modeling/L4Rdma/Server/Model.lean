import Mathlib

/-!
# The server and its workers

`server/src/server_interface.cc`, `wq_interface.cc` and `cq_interface.cc`. The server creates a
thread for each work queue and each completion queue. The thread sets its queue up, stores the
capability of its object in a variable of the server, sends an empty message to tell that it is
ready, and serves requests in a loop. The server waits for that message, and replies with what is in
the variable.

A worker takes a step each time one of its calls of the kernel ends. The message is a step of both,
since the kernel hands it over when the sender and the receiver are there. Any call may fail.
-/

namespace L4Rdma.Server

/-- What a worker is for: the threads of `WQ_impl` and of `CQ_impl`. -/
inductive Kind
  | wq
  | cq
  deriving DecidableEq, Repr

/-- How far a worker has come in `setup_and_start`. -/
inductive Phase
  /-- It calls `run_thread` of the scheduler. -/
  | runThread
  /-- It allocates a capability slot, in `mem_alloc`. -/
  | capAlloc
  /-- It allocates a dataspace, in `mem_alloc`. -/
  | memAlloc
  /-- It attaches the dataspace, in `mem_alloc`. -/
  | attach
  /-- It calls `register_obj`. -/
  | registerObj
  /-- It sends the message to the server. -/
  | notify
  /-- Its message has been received, and it goes on to its loop. -/
  | notified
  /-- It serves requests. -/
  | loop
  /-- It has returned. -/
  | returned
  deriving DecidableEq, Repr

/-- What a worker holds of the kernel for its queue. -/
structure Memory where
  slot : Bool := false
  dataspace : Bool := false
  region : Bool := false
  deriving DecidableEq, Repr

/-- A worker. -/
structure Worker where
  kind : Kind
  qsize : ℕ
  phase : Phase := .runThread
  memory : Memory := {}
  registered : Bool := false
  deriving DecidableEq, Repr

/-- The capability of a worker's object. A worker registers one, so it is known by the worker's
number. -/
abbrev Cap : Type := ℕ

/-- What the server does. -/
inductive ServerPhase
  /-- It waits for requests. -/
  | loop
  /-- It waits for the message of a worker. -/
  | receive (worker : ℕ)
  /-- It has stopped waiting, with a message or with an error. -/
  | received (worker : ℕ)
  deriving DecidableEq, Repr

/-- The server has replied `L4_EOK` to a request: the worker of the request, the capability in the
reply, and the worker at that time. -/
structure Reply where
  worker : ℕ
  cap : Option Cap
  state : Option Worker

/-- The workers, by their numbers, and the server. -/
structure State where
  workers : List Worker
  server : ServerPhase
  /-- The variable `wq_if` or `cq_if` of the request that is served. -/
  res : Option Cap
  replies : List Reply

/-- The server at the start. -/
def init : State := ⟨[], .loop, none, []⟩

/-- What happens. -/
inductive Act
  /-- A request `create_wq` comes. -/
  | createWq (qsize : ℕ)
  /-- A request `create_cq` comes. -/
  | createCq (qsize : ℕ)
  /-- The call that a worker makes ends, with success or not. -/
  | call (worker : ℕ) (ok : Bool)
  /-- The server's receive ends with an error. -/
  | receiveError
  /-- The server replies. -/
  | reply
  /-- A client that has the capability of a worker's object terminates it. -/
  | terminate (worker : ℕ)
  deriving DecidableEq, Repr

variable (s : State)

/-- The state with another worker of a number. -/
def State.setWorker (w : ℕ) (wk : Worker) : State := { s with workers := s.workers.set w wk }

/-- A worker that returns. Its registry is gone with it, and what it holds is not given back. -/
def Worker.return (wk : Worker) : Worker := { wk with phase := .returned, registered := false }

/-- `cleanup`, on the way out of the loop. -/
def Worker.cleanup (wk : Worker) : Worker := { wk with memory := {} }

/-- The server's part of a request up to the receive: a new variable, and a new worker. -/
def State.create (kind : Kind) (qsize : ℕ) : Option State :=
  if s.server = .loop then some { s with
    workers := s.workers ++ [{ kind := kind, qsize := qsize }]
    server := .receive s.workers.length
    res := none }
  else none

/-- `op_create_wq` up to the receive. -/
def State.opCreateWq (qsize : ℕ) : Option State := s.create .wq qsize

/-- `op_create_cq` up to the receive. -/
def State.opCreateCq (qsize : ℕ) : Option State := s.create .cq qsize

/-- A call of a worker in `setup_and_start` ends with success. -/
def State.succeed (w : ℕ) (wk : Worker) : Option State :=
  match wk.phase with
  | .runThread => some (s.setWorker w { wk with phase := .capAlloc })
  | .capAlloc => some (s.setWorker w { wk with
      phase := .memAlloc, memory := { wk.memory with slot := true } })
  | .memAlloc => some (s.setWorker w { wk with
      phase := .attach, memory := { wk.memory with dataspace := true } })
  | .attach => some (s.setWorker w { wk with
      phase := .registerObj, memory := { wk.memory with region := true } })
  | .registerObj => some { s.setWorker w { wk with phase := .notify, registered := true } with
      res := some w }
  | .notify =>
    if s.server = .receive w then some { s.setWorker w { wk with phase := .notified } with
      server := .received w }
    else none
  | .notified => some (s.setWorker w { wk with phase := .loop })
  | .loop => none
  | .returned => none

/-- A call of a worker fails: each of the checks in `setup_and_start` returns. -/
def State.fail (w : ℕ) (wk : Worker) : Option State :=
  match wk.phase with
  | .runThread => some (s.setWorker w wk.return)
  | .capAlloc => some (s.setWorker w wk.return)
  | .memAlloc => some (s.setWorker w wk.return)
  | .attach => some (s.setWorker w wk.return)
  | .registerObj => some (s.setWorker w wk.return)
  | .notify => some (s.setWorker w wk.return)
  | .notified => none
  | .loop => none
  | .returned => none

/-- The server's receive may end with an error when the worker has returned. -/
def State.receiveError : Option State :=
  match s.server with
  | .receive w =>
    if s.workers[w]?.map Worker.phase = some .returned then some { s with server := .received w }
    else none
  | _ => none

/-- The rest of `op_create_wq` and `op_create_cq`: the reply, whatever the receive has ended with. -/
def State.reply : Option State :=
  match s.server with
  | .received w => some { s with
      server := .loop
      replies := s.replies ++ [⟨w, s.res, s.workers[w]?⟩] }
  | _ => none

/-- `op_terminate` throws, so that the worker leaves its loop. -/
def State.terminate (w : ℕ) : Option State :=
  match s.workers[w]? with
  | some wk =>
    if wk.phase = .loop ∧ ∃ r ∈ s.replies, r.cap = some w then
      some (s.setWorker w wk.cleanup.return)
    else none
  | none => none

/-- What an act does, if it can happen. -/
def next : Act → Option State
  | .createWq qsize => s.opCreateWq qsize
  | .createCq qsize => s.opCreateCq qsize
  | .call w ok => s.workers[w]?.bind fun wk => if ok then s.succeed w wk else s.fail w wk
  | .receiveError => s.receiveError
  | .reply => s.reply
  | .terminate w => s.terminate w

/-- One act of a run. -/
def Step (s : State) (a : Act) (s' : State) : Prop := next s a = some s'

/-! ## What the acts do -/

variable {s} {s' : State} {w qsize : ℕ} {wk : Worker} {kind : Kind}

/-- The server starts a worker when it waits for a request. -/
theorem create_cases (h : s.create kind qsize = some s') : s.server = .loop ∧ s' = { s with
    workers := s.workers ++ [{ kind := kind, qsize := qsize }]
    server := .receive s.workers.length
    res := none } := by
  unfold State.create at h
  split_ifs at h with hloop
  exact ⟨hloop, (Option.some.inj h).symm⟩

/-- A call can fail up to the message. -/
theorem fail_cases (h : s.fail w wk = some s') : wk.phase ≠ .notified ∧ wk.phase ≠ .loop ∧
    wk.phase ≠ .returned ∧ s' = s.setWorker w wk.return := by
  unfold State.fail at h
  cases hphase : wk.phase <;> rw [hphase] at h <;> cases h <;> exact ⟨nofun, nofun, nofun, rfl⟩

/-- The receive fails when the worker has returned. -/
theorem receiveError_cases (h : s.receiveError = some s') : ∃ w, s.server = .receive w ∧
    s.workers[w]?.map Worker.phase = some .returned ∧ s' = { s with server := .received w } := by
  unfold State.receiveError at h
  split at h
  · rename_i w hserver
    split_ifs at h with hret
    exact ⟨w, hserver, hret, (Option.some.inj h).symm⟩
  · cases h

/-- The server replies with what it has received. -/
theorem reply_cases (h : s.reply = some s') : ∃ w, s.server = .received w ∧ s' = { s with
    server := .loop
    replies := s.replies ++ [⟨w, s.res, s.workers[w]?⟩] } := by
  unfold State.reply at h
  split at h
  · rename_i w hserver
    exact ⟨w, hserver, (Option.some.inj h).symm⟩
  · cases h

/-- A client that has the capability can terminate the worker. -/
theorem terminate_cases (h : s.terminate w = some s') : ∃ wk, s.workers[w]? = some wk ∧
    wk.phase = .loop ∧ (∃ r ∈ s.replies, r.cap = some w) ∧
    s' = s.setWorker w wk.cleanup.return := by
  unfold State.terminate at h
  split at h
  · rename_i wk hw
    split_ifs at h with hguard
    exact ⟨wk, hw, hguard.1, hguard.2, (Option.some.inj h).symm⟩
  · cases h

end L4Rdma.Server
