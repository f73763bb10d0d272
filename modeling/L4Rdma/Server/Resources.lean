import L4Rdma.Server.Model
import L4Rdma.Lib.Run
import L4Rdma.Lib.Ledger

/-!
# What the workers get and give back

The calls of `mem_alloc` in `wq_interface.cc` and `cq_interface.cc` get a capability slot, a dataspace
and an attached region for the queue, and `register_obj` gets a slot for the gate of the object. A
worker that leaves its loop gives them back, in `unregister_obj` and `cleanup`. A worker whose call
fails just returns. In its loop it answers the requests for the memory of its queue.

The state is that of the server with the members of the workers' objects, the ledger of what the
kernel has given to them, and the answers. The ledger also says which worker each thing was got for,
which no function of the source looks up.
-/

namespace L4Rdma.Resources

open Lib Lib.Ledger Server

/-! ## What there is to hold -/

/-- What the kernel gives to a worker. The memory of a dataspace is never that of another one, so that
each has its own number. -/
inductive Resource
  | slot (c : ℕ)
  | dataspace (d : ℕ)
  | region (addr : ℕ)
  deriving DecidableEq, Repr

/-- What is in a slot, or attached in a region. -/
inductive Content
  | empty
  | dataspace (d : ℕ)
  | gate
  deriving DecidableEq, Repr

/-- The members of `WQ_impl` and of `CQ_impl`, and the capability of the object. A capability is the
number of its slot, and invalid at first. The members that no function reads are left out. -/
structure Impl where
  rq : Option ℕ := none
  dbr : Option ℕ := none
  cq : Option ℕ := none
  rq_addr : Option ℕ := none
  cq_addr : Option ℕ := none
  obj_cap : Option ℕ := none
  deriving DecidableEq, Repr

/-- The member for the memory of the queue. -/
def Impl.mem (o : Impl) : Kind → Option ℕ
  | .wq => o.rq
  | .cq => o.cq

/-- It is set. -/
def Impl.setMem (o : Impl) (kind : Kind) (c : ℕ) : Impl :=
  match kind with
  | .wq => { o with rq := some c }
  | .cq => { o with cq := some c }

/-- The member for the address of the memory. -/
def Impl.addr (o : Impl) : Kind → Option ℕ
  | .wq => o.rq_addr
  | .cq => o.cq_addr

/-- It is set. -/
def Impl.setAddr (o : Impl) (kind : Kind) (addr : ℕ) : Impl :=
  match kind with
  | .wq => { o with rq_addr := some addr }
  | .cq => { o with cq_addr := some addr }

/-! ## The requests -/

/-- What a client asks a queue for. -/
inductive Role
  | rq
  | sq
  | dbr
  | cq
  deriving DecidableEq, Repr

/-- The objects that have the request: `WQ_if` or `CQ_if`. -/
def Role.kind : Role → Kind
  | .rq => .wq
  | .sq => .wq
  | .dbr => .wq
  | .cq => .cq

/-- `WQ_impl::op_get_rq`. -/
def Impl.opGetRq (o : Impl) : Option ℕ := o.rq

/-- `WQ_impl::op_get_sq`. -/
def Impl.opGetSq (o : Impl) : Option ℕ := o.rq

/-- `WQ_impl::op_get_dbr`. -/
def Impl.opGetDbr (o : Impl) : Option ℕ := o.dbr

/-- `CQ_impl::op_get_cq`. -/
def Impl.opGetCq (o : Impl) : Option ℕ := o.cq

/-- The capability in the answer to a request. -/
def Role.serve (o : Impl) : Role → Option ℕ
  | .rq => o.opGetRq
  | .sq => o.opGetSq
  | .dbr => o.opGetDbr
  | .cq => o.opGetCq

/-- An answer with `L4_EOK`: the worker that was asked, the dataspace that the capability of the
answer refers to, and the worker that this one was allocated for, if it is allocated at that time. -/
structure Answer where
  worker : ℕ
  role : Role
  dataspace : Option ℕ
  owner : Option ℕ
  deriving DecidableEq, Repr

/-! ## The states and the steps -/

/-- The server, the objects of its workers, who holds what, the next new dataspace, and the answers. -/
structure State where
  server : Server.State
  impls : ℕ → Impl
  held : Ledger Resource ℕ Content
  fresh : ℕ
  answers : List Answer

/-- The start. -/
def init : State := ⟨Server.init, fun _ => {}, fun _ => none, 0, []⟩

/-- What happens. An allocator of slots or of addresses finds a free place, which may be any. -/
inductive Act
  /-- An act of the server and its workers, with the place that is found in it, if one is. -/
  | server (a : Server.Act) (place : ℕ)
  /-- A client that has the capability of a worker's object asks for memory of the queue. -/
  | get (worker : ℕ) (role : Role)
  deriving DecidableEq, Repr

variable (s : State)

/-- The state with another object of a worker. -/
def State.setImpl (w : ℕ) (o : Impl) : State := { s with impls := Function.update s.impls w o }

/-- The dataspace that the capability in a slot refers to. -/
def State.dataspaceIn (c : ℕ) : Option ℕ :=
  match s.held (.slot c) with
  | some (_, .dataspace d) => some d
  | _ => none

/-- `cap_alloc.alloc`, in `mem_alloc`. -/
def State.capAlloc (w : ℕ) (kind : Kind) (place : ℕ) : Option State :=
  if s.held (.slot place) = none then
    some { s.setImpl w ((s.impls w).setMem kind place) with
      held := s.held.put (.slot place) w .empty }
  else none

/-- `mem_alloc()->alloc`, which needs a valid capability. -/
def State.memAlloc (w : ℕ) (kind : Kind) : Option State :=
  ((s.impls w).mem kind).map fun c => { s with
    held := (s.held.put (.slot c) w (.dataspace s.fresh)).put (.dataspace s.fresh) w .empty
    fresh := s.fresh + 1 }

/-- `rm()->attach`, which needs the capability of a dataspace. -/
def State.attach (w : ℕ) (kind : Kind) (place : ℕ) : Option State :=
  ((s.impls w).mem kind).bind fun c => (s.dataspaceIn c).bind fun d =>
    if s.held (.region place) = none then
      some { s.setImpl w ((s.impls w).setAddr kind place) with
        held := s.held.put (.region place) w (.dataspace d) }
    else none

/-- `register_obj`, which takes a slot for the gate. -/
def State.registerObj (w : ℕ) (place : ℕ) : Option State :=
  if s.held (.slot place) = none then
    some { s.setImpl w { s.impls w with obj_cap := some place } with
      held := s.held.put (.slot place) w .gate }
  else none

/-- `unregister_obj`, which gives the slot of the gate back. -/
def State.unregisterObj (w : ℕ) : State :=
  match (s.impls w).obj_cap with
  | some g => { s.setImpl w { s.impls w with obj_cap := none } with held := s.held.drop (.slot g) }
  | none => s

/-- `rm()->detach`, in `cleanup`. -/
def State.detach (w : ℕ) (kind : Kind) : State :=
  match (s.impls w).addr kind with
  | some addr => { s with held := s.held.drop (.region addr) }
  | none => s

/-- `cap_alloc.free`, in `cleanup`. It takes the capability away from everybody, so that the dataspace
is gone. -/
def State.free (w : ℕ) (kind : Kind) : State :=
  match (s.impls w).mem kind with
  | some c =>
    match s.dataspaceIn c with
    | some d => { s with held := (s.held.drop (.dataspace d)).drop (.slot c) }
    | none => { s with held := s.held.drop (.slot c) }
  | none => s

/-- `WQ_impl::cleanup` and `CQ_impl::cleanup`. -/
def State.cleanup (w : ℕ) (kind : Kind) : State := (s.detach w kind).free w kind

/-- The worker returns, and its object is gone. -/
def State.return (w : ℕ) : State := s.setImpl w {}

/-- A worker leaves its loop. Nobody else has a part in what it does then, so that it is one step. -/
def State.shutDown (w : ℕ) (kind : Kind) : State := ((s.unregisterObj w).cleanup w kind).return w

/-- What a call of a worker that succeeds gets. -/
def State.succeed (w : ℕ) (wk : Worker) (place : ℕ) : Option State :=
  match wk.phase with
  | .capAlloc => s.capAlloc w wk.kind place
  | .memAlloc => s.memAlloc w wk.kind
  | .attach => s.attach w wk.kind place
  | .registerObj => s.registerObj w place
  | _ => some s

/-- What an act of the server and its workers gets and gives back. -/
def State.effect (a : Server.Act) (place : ℕ) : Option State :=
  match a with
  | .call w ok => s.server.workers[w]?.bind fun wk =>
      if ok then s.succeed w wk place else some (s.return w)
  | .terminate w => s.server.workers[w]?.map fun wk => s.shutDown w wk.kind
  | _ => some s

/-- The answer to a request. -/
def State.answer (w : ℕ) (role : Role) : Answer :=
  let dataspace := (role.serve (s.impls w)).bind s.dataspaceIn
  { worker := w
    role := role
    dataspace := dataspace
    owner := dataspace.bind fun d => (s.held (.dataspace d)).map Prod.fst }

/-- A request is served, in the loop of the worker. -/
def State.get (w : ℕ) (role : Role) : Option State :=
  s.server.workers[w]?.bind fun wk =>
    if wk.phase = .loop ∧ wk.kind = role.kind ∧ ∃ r ∈ s.server.replies, r.cap = some w then
      some { s with answers := s.answers ++ [s.answer w role] }
    else none

/-- What an act does, if it can happen. -/
def next : Act → Option State
  | .server a place => (Server.next s.server a).bind fun server =>
      (s.effect a place).map fun s' => { s' with server := server }
  | .get w role => s.get w role

/-- One act of a run. -/
def Step (s : State) (a : Act) (s' : State) : Prop := next s a = some s'

/-- The acts of a request for a queue in which nothing fails, with the places that are found. -/
def created (a : Server.Act) (w c addr g : ℕ) : List Act :=
  [.server a 0, .server (.call w true) 0, .server (.call w true) c, .server (.call w true) 0,
    .server (.call w true) addr, .server (.call w true) g, .server (.call w true) 0,
    .server (.call w true) 0, .server .reply 0]

/-! ## The server below -/

variable {s} {s' : State} {a : Act}

/-- A step is one of the server and its workers, or leaves them as they are. -/
theorem step_server (hstep : Step s a s') :
    (∃ b, Server.Step s.server b s'.server) ∨ s'.server = s.server := by
  unfold Step next at hstep
  cases a with
  | server b place =>
    obtain ⟨server, hserver, hrest⟩ := Option.bind_eq_some_iff.mp hstep
    obtain ⟨s₁, -, rfl⟩ := Option.map_eq_some_iff.mp hrest
    exact .inl ⟨b, hserver⟩
  | get w role =>
    obtain ⟨wk, -, hget⟩ := Option.bind_eq_some_iff.mp hstep
    split_ifs at hget
    cases hget
    exact .inr rfl

/-- A run is a run of the server and its workers. -/
theorem run_server {steps : List (State × Act)} (h : Run Step init steps s) :
    ∃ steps', Run Server.Step Server.init steps' s.server := by
  induction h with
  | nil => exact ⟨[], .nil⟩
  | @snoc steps s s' a hrun hstep ih =>
    obtain ⟨steps', hserver⟩ := ih
    rcases step_server hstep with ⟨b, hb⟩ | hsame
    · exact ⟨_, hserver.snoc hb⟩
    · rw [hsame]
      exact ⟨steps', hserver⟩

end L4Rdma.Resources
