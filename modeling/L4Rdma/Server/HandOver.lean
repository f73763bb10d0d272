import L4Rdma.Server.Model
import L4Rdma.Lib.Run

/-!
# Handing a queue over

The server takes what it has received for the message of its worker, and replies. None of the checks
in a worker's `setup_and_start` sends anything, and the server goes on after an error. So the server
hands a registered and serving object over, and never waits for a worker that has returned, exactly
as long as no call of a worker fails and no reply is made before the worker is in its loop
(`handsOver_iff_orderly`).
-/

namespace L4Rdma.Server

open Lib

/-- A reply has the capability that the request's worker has stored, and the worker is registered and
serves requests. -/
structure Reply.Ok (r : Reply) : Prop where
  stored : r.cap = some r.worker
  serves : ∃ wk, r.state = some wk ∧ wk.registered = true ∧ wk.phase = .loop

/-- All replies so far have been in order, and the server does not wait for a worker that has
returned. -/
structure HandsOver (s : State) : Prop where
  replies : ∀ r ∈ s.replies, r.Ok
  waits : ∀ w wk, s.server = .receive w → s.workers[w]? = some wk → wk.phase ≠ .returned

/-- The worker of the request is on its way to its loop. -/
def State.onItsWay (s : State) : Bool :=
  match s.server with
  | .received w => s.workers[w]?.map Worker.phase == some .notified
  | _ => false

/-- No call of a worker fails, and the server does not reply while the worker is on its way to its
loop. -/
def orderly (s : State) : Act → Bool
  | .call _ ok => ok
  | .reply => !s.onItsWay
  | _ => true

/-- A step that is in order. -/
def Orderly (s : State) (a : Act) : Prop := orderly s a = true

/-- The phases before the message is received. -/
def Phase.setup : Phase → Bool
  | .runThread => true
  | .capAlloc => true
  | .memAlloc => true
  | .attach => true
  | .registerObj => true
  | .notify => true
  | .notified => false
  | .loop => false
  | .returned => false

/-- The worker that is served is the last one, and the server follows its phases. -/
structure Serving (s : State) : Prop extends HandsOver s where
  known : ∀ r ∈ s.replies, r.worker < s.workers.length
  setup : ∀ w wk, s.workers[w]? = some wk → wk.phase.setup = true → s.server = .receive w
  receive : ∀ w, s.server = .receive w → ∃ wk, s.workers[w]? = some wk ∧ wk.phase.setup = true ∧
    (wk.phase = .notify → wk.registered = true ∧ s.res = some w) ∧ ∀ r ∈ s.replies, r.worker ≠ w
  received : ∀ w, s.server = .received w → ∃ wk, s.workers[w]? = some wk ∧
    (wk.phase = .notified ∨ wk.phase = .loop) ∧ wk.registered = true ∧ s.res = some w ∧
    ∀ r ∈ s.replies, r.worker ≠ w

variable {s s' : State} {a : Act} {w : ℕ} {wk wk' : Worker}

/-- The invariant holds at the start. -/
theorem serving_init : Serving init where
  replies r hr := absurd hr List.not_mem_nil
  waits w wk h := by cases h
  known r hr := absurd hr List.not_mem_nil
  setup w wk h := by cases h
  receive w h := by cases h
  received w h := by cases h

/-! ## What a step does -/

/-- The other workers stay as they are. -/
theorem setWorker_of_ne {v : ℕ} (h : v ≠ w) : (s.setWorker w wk).workers[v]? = s.workers[v]? :=
  List.getElem?_set_ne (Ne.symm h)

/-- The worker is the one that has been stored. -/
theorem setWorker_same (h : s.workers[w]? = some wk) :
    (s.setWorker w wk').workers[w]? = some wk' := by
  have hlt : w < s.workers.length := (List.getElem?_eq_some_iff.mp h).1
  exact List.getElem?_set_self hlt

/-- Storing a worker leaves their number. -/
theorem setWorker_length : (s.setWorker w wk).workers.length = s.workers.length :=
  List.length_set

/-- A worker's number is below the number of workers. -/
theorem lt_of_worker (h : s.workers[w]? = some wk) : w < s.workers.length :=
  (List.getElem?_eq_some_iff.mp h).1

/-- A request is taken. -/
theorem Serving.create (h : Serving s) {kind : Kind} {qsize : ℕ}
    (hs : s.create kind qsize = some s') : Serving s' := by
  obtain ⟨hloop, rfl⟩ := create_cases hs
  -- A worker of the new state is one of the old ones or the one that has just been started.
  have hnew : ∀ v wk, (s.workers ++ [{ kind := kind, qsize := qsize }])[v]? = some wk →
      s.workers[v]? = some wk ∨ v = s.workers.length ∧ wk = { kind := kind, qsize := qsize } := by
    intro v wk hv
    rcases Nat.lt_or_ge v s.workers.length with hlt | hge
    · rw [List.getElem?_append_left hlt] at hv
      exact .inl hv
    · rw [List.getElem?_append_right hge, List.getElem?_singleton] at hv
      split_ifs at hv with hzero
      exact .inr ⟨by omega, (Option.some.inj hv).symm⟩
  refine ⟨⟨h.replies, fun v wk hv hwk => ?_⟩, fun r hr => ?_, fun v wk hwk hsetup => ?_,
    fun v hv => ?_, fun v hv => ?_⟩
  · rcases hnew v wk hwk with hold | ⟨-, rfl⟩
    · cases hv
      exact absurd (lt_of_worker hold) (Nat.lt_irrefl _)
    · exact nofun
  · rw [List.length_append]
    exact Nat.lt_succ_of_lt (h.known r hr)
  · rcases hnew v wk hwk with hold | ⟨rfl, -⟩
    · have hserver := h.setup v wk hold hsetup
      rw [hloop] at hserver
      cases hserver
    · rfl
  · cases hv
    refine ⟨{ kind := kind, qsize := qsize }, ?_, rfl, nofun, fun r hr => ?_⟩
    · rw [List.getElem?_append_right (Nat.le_refl _), Nat.sub_self]
      rfl
    · exact Nat.ne_of_lt (h.known r hr)
  · cases hv

/-- A worker goes on with its setup. -/
theorem Serving.progress (h : Serving s) (hw : s.workers[w]? = some wk)
    (hsetup : wk.phase.setup = true) (hsetup' : wk'.phase.setup = true) {res : Option Cap}
    (hnotify : wk'.phase = .notify → wk'.registered = true ∧ res = some w) :
    Serving { s.setWorker w wk' with res := res } := by
  have hserver : s.server = .receive w := h.setup w wk hw hsetup
  refine ⟨⟨h.replies, fun v wk₁ hv hwk => ?_⟩, fun r hr => ?_, fun v wk₁ hwk hset => ?_,
    fun v hv => ?_, fun v hv => ?_⟩
  · obtain rfl : w = v := ServerPhase.receive.inj (hserver.symm.trans hv)
    obtain rfl := Option.some.inj ((setWorker_same hw).symm.trans hwk)
    intro hret
    rw [hret] at hsetup'
    cases hsetup'
  · rw [setWorker_length]
    exact h.known r hr
  · by_cases hvw : v = w
    · rw [hvw]
      exact hserver
    · exact h.setup v wk₁ ((setWorker_of_ne hvw).symm.trans hwk) hset
  · obtain rfl : w = v := ServerPhase.receive.inj (hserver.symm.trans hv)
    obtain ⟨-, -, -, -, hfresh⟩ := h.receive w hserver
    exact ⟨wk', setWorker_same hw, hsetup', hnotify, hfresh⟩
  · have hv' : s.server = .received v := hv
    rw [hserver] at hv'
    cases hv'

/-- A worker that has sent its message goes on. -/
theorem Serving.settle (h : Serving s) (hw : s.workers[w]? = some wk)
    (hset : wk.phase.setup = false) (hset' : wk'.phase.setup = false)
    (hserved : s.server = .received w →
      (wk'.phase = .notified ∨ wk'.phase = .loop) ∧ wk'.registered = true) :
    Serving (s.setWorker w wk') := by
  -- The server does not wait for this worker's message any more, since that has been sent.
  have hnot : s.server ≠ .receive w := fun hserver => by
    obtain ⟨wk₁, hw₁, hsetup, -⟩ := h.receive w hserver
    obtain rfl := Option.some.inj (hw.symm.trans hw₁)
    rw [hset] at hsetup
    cases hsetup
  refine ⟨⟨h.replies, fun v wk₁ hv hwk => ?_⟩, fun r hr => ?_, fun v wk₁ hwk hsetup => ?_,
    fun v hv => ?_, fun v hv => ?_⟩
  · have hvw : v ≠ w := fun heq => hnot (heq ▸ hv)
    exact h.waits v wk₁ hv ((setWorker_of_ne hvw).symm.trans hwk)
  · rw [setWorker_length]
    exact h.known r hr
  · by_cases hvw : v = w
    · subst hvw
      obtain rfl := Option.some.inj ((setWorker_same hw).symm.trans hwk)
      rw [hset'] at hsetup
      cases hsetup
    · exact h.setup v wk₁ ((setWorker_of_ne hvw).symm.trans hwk) hsetup
  · have hvw : v ≠ w := fun heq => hnot (heq ▸ hv)
    obtain ⟨wk₁, hw₁, hrest⟩ := h.receive v hv
    exact ⟨wk₁, (setWorker_of_ne hvw).trans hw₁, hrest⟩
  · obtain ⟨wk₁, hw₁, hphase, hreg, hrest⟩ := h.received v hv
    by_cases hvw : v = w
    · subst hvw
      obtain ⟨hphase', hreg'⟩ := hserved hv
      exact ⟨wk', setWorker_same hw, hphase', hreg', hrest⟩
    · exact ⟨wk₁, (setWorker_of_ne hvw).trans hw₁, hphase, hreg, hrest⟩

/-- The message of a worker is received. -/
theorem Serving.notify (h : Serving s) (hw : s.workers[w]? = some wk) (hphase : wk.phase = .notify)
    (hserver : s.server = .receive w) :
    Serving { s.setWorker w { wk with phase := .notified } with server := .received w } := by
  obtain ⟨wk₁, hw₁, hsetup, hnotify, hfresh⟩ := h.receive w hserver
  obtain rfl := Option.some.inj (hw.symm.trans hw₁)
  obtain ⟨hreg, hres⟩ := hnotify hphase
  refine ⟨⟨h.replies, fun v wk₁ hv hwk => nomatch hv⟩, fun r hr => ?_, fun v wk₁ hwk hset => ?_,
    fun v hv => (nomatch hv), fun v hv => ?_⟩
  · show r.worker < (s.setWorker w _).workers.length
    rw [setWorker_length]
    exact h.known r hr
  · by_cases hvw : v = w
    · subst hvw
      obtain rfl := Option.some.inj ((setWorker_same hw).symm.trans hwk)
      cases hset
    · have hother := h.setup v wk₁ ((setWorker_of_ne hvw).symm.trans hwk) hset
      rw [hserver] at hother
      exact absurd (ServerPhase.receive.inj hother).symm hvw
  · obtain rfl : w = v := ServerPhase.received.inj hv
    exact ⟨_, setWorker_same hw, .inl rfl, hreg, hres, hfresh⟩

/-- The worker has notified the server and is not in its loop yet. -/
theorem onItsWay_iff (hserver : s.server = .received w) (hw : s.workers[w]? = some wk) :
    s.onItsWay = true ↔ wk.phase = .notified := by
  unfold State.onItsWay
  rw [hserver]
  simp only [hw, Option.map_some, beq_iff_eq, Option.some.injEq]

/-- The server replies when its worker is in its loop. -/
theorem Serving.reply (h : Serving s) (hs : s.reply = some s') (hloop : s.onItsWay = false) :
    Serving s' := by
  obtain ⟨w, hserver, rfl⟩ := reply_cases hs
  obtain ⟨wk, hw, hphase, hreg, hres, hfresh⟩ := h.received w hserver
  have hserves : wk.phase = .loop := hphase.resolve_left fun hway => by
    rw [(onItsWay_iff hserver hw).mpr hway] at hloop
    cases hloop
  refine ⟨⟨fun r hr => ?_, fun v wk₁ hv => nomatch hv⟩, fun r hr => ?_, fun v wk₁ hwk hset => ?_,
    fun v hv => (nomatch hv), fun v hv => (nomatch hv)⟩
  · rcases List.mem_append.mp hr with hr | hr
    · exact h.replies r hr
    · obtain rfl := List.mem_singleton.mp hr
      exact ⟨hres, wk, hw, hreg, hserves⟩
  · rcases List.mem_append.mp hr with hr | hr
    · exact h.known r hr
    · obtain rfl := List.mem_singleton.mp hr
      exact lt_of_worker hw
  · have hother := h.setup v wk₁ hwk hset
    rw [hserver] at hother
    cases hother

/-! ## Runs -/

/-- A call of a worker that succeeds. -/
theorem Serving.succeed (h : Serving s) (hw : s.workers[w]? = some wk)
    (hs : s.succeed w wk = some s') : Serving s' := by
  unfold State.succeed at hs
  cases hphase : wk.phase <;> rw [hphase] at hs
  case notify =>
    split_ifs at hs with hserver
    cases hs
    exact h.notify hw hphase hserver
  case notified =>
    cases hs
    refine h.settle hw (by rw [hphase]; rfl) rfl fun hserver => ⟨.inr rfl, ?_⟩
    obtain ⟨wk₁, hw₁, -, hreg, -⟩ := h.received w hserver
    obtain rfl := Option.some.inj (hw.symm.trans hw₁)
    exact hreg
  case registerObj =>
    cases hs
    exact h.progress hw (by rw [hphase]; rfl) rfl fun _ => ⟨rfl, rfl⟩
  all_goals
    cases hs <;> exact h.progress hw (by rw [hphase]; rfl) rfl nofun

/-- A worker whose object has been handed over is terminated. -/
theorem Serving.terminate (h : Serving s) (hs : s.terminate w = some s') : Serving s' := by
  obtain ⟨wk, hw, hloop, ⟨r, hr, hcap⟩, rfl⟩ := terminate_cases hs
  obtain rfl : r.worker = w := Option.some.inj ((h.replies r hr).stored.symm.trans hcap)
  refine h.settle hw (by rw [hloop]; rfl) rfl fun hserver => ?_
  obtain ⟨-, -, -, -, -, hfresh⟩ := h.received r.worker hserver
  exact absurd rfl (hfresh r hr)

/-- The receive does not end with an error, since the worker has not returned. -/
theorem Serving.receiveError (h : Serving s) : s.receiveError ≠ some s' := by
  intro hs
  obtain ⟨w, hserver, hret, -⟩ := receiveError_cases hs
  obtain ⟨wk, hw, hsetup, -⟩ := h.receive w hserver
  rw [hw, Option.map_some] at hret
  rw [Option.some.inj hret] at hsetup
  cases hsetup

/-- Steps that are in order keep the server following its worker. -/
theorem Serving.step (h : Serving s) (hstep : Step s a s') (horderly : Orderly s a) :
    Serving s' := by
  unfold Step next at hstep
  cases a with
  | createWq qsize => exact h.create hstep
  | createCq qsize => exact h.create hstep
  | call w ok =>
    obtain ⟨wk, hw, hs⟩ := Option.bind_eq_some_iff.mp hstep
    have hok : ok = true := horderly
    rw [if_pos hok] at hs
    exact h.succeed hw hs
  | receiveError => exact absurd hstep h.receiveError
  | reply =>
    have hloop : (!s.onItsWay) = true := horderly
    rw [Bool.not_eq_true'] at hloop
    exact h.reply hstep hloop
  | terminate w => exact h.terminate hstep

/-- In the other phases a worker is setting up. -/
theorem setup_of_ne {p : Phase} (hnotified : p ≠ .notified) (hloop : p ≠ .loop)
    (hret : p ≠ .returned) : p.setup = true := by
  cases p
  case notified => exact absurd rfl hnotified
  case loop => exact absurd rfl hloop
  case returned => exact absurd rfl hret
  all_goals rfl

/-- A worker whose call fails returns while the server waits for it. -/
theorem Serving.fail (h : Serving s) (hw : s.workers[w]? = some wk)
    (hs : s.fail w wk = some s') : ¬ HandsOver s' := by
  obtain ⟨hnotified, hloop, hret, rfl⟩ := fail_cases hs
  have hserver : s.server = .receive w := h.setup w wk hw (setup_of_ne hnotified hloop hret)
  exact fun hover => hover.waits w wk.return hserver (setWorker_same hw) rfl

/-- A reply while the worker is on its way to its loop hands over an object that nobody serves
yet. -/
theorem Serving.reply_early (h : Serving s) (hs : s.reply = some s')
    (hway : s.onItsWay = true) : ¬ HandsOver s' := by
  obtain ⟨w, hserver, rfl⟩ := reply_cases hs
  obtain ⟨wk, hw, -⟩ := h.received w hserver
  intro hover
  obtain ⟨-, wk₁, hw₁, -, hloop⟩ := hover.replies ⟨w, s.res, s.workers[w]?⟩
    (List.mem_append_right _ (List.mem_singleton_self _))
  obtain rfl := Option.some.inj (hw.symm.trans hw₁)
  rw [(onItsWay_iff hserver hw).mp hway] at hloop
  cases hloop

/-- In every run of the server, each reply hands over the object of a worker that is registered and
serves requests, and the server never waits for a worker that has returned, exactly when no call of a
worker fails and no reply is made before the worker is in its loop. -/
theorem handsOver_iff_orderly (steps : List (State × Act)) (s : State)
    (h : Run Step init steps s) : Throughout HandsOver steps s ↔ AllSteps Orderly steps := by
  refine h.all_iff (I := Serving) serving_init (fun s h => h.toHandsOver)
    (fun s a s' hs hstep horderly => hs.step hstep horderly) fun s a s' hs hstep hbad => ?_
  cases a with
  | call w ok =>
    obtain ⟨wk, hw, hnext⟩ := Option.bind_eq_some_iff.mp hstep
    have hok : ¬ ok = true := hbad
    rw [if_neg hok] at hnext
    exact hs.fail hw hnext
  | reply =>
    have hway : ¬ (!s.onItsWay) = true := hbad
    rw [Bool.not_eq_true', Bool.not_eq_false] at hway
    exact hs.reply_early hstep hway
  | createWq qsize => exact absurd rfl hbad
  | createCq qsize => exact absurd rfl hbad
  | receiveError => exact absurd rfl hbad
  | terminate w => exact absurd rfl hbad

/-! ## Two runs -/

/-- The events of a request whose worker fails to register its object. -/
def unregistered : List Act :=
  [.createWq 2, .call 0 true, .call 0 true, .call 0 true, .call 0 true, .call 0 false, .receiveError,
    .reply]

/-- The server replies with a capability that nobody has stored. -/
theorem unregistered_not_handsOver : ∃ steps s, Run Step init steps s ∧
    steps.map Prod.snd = unregistered ∧ ¬ Throughout HandsOver steps s := by
  have hbad : ((unregistered.foldlM next init).any
      fun s => s.replies.any fun r => r.cap.isNone) = true := by decide
  obtain ⟨s, hs, hnone⟩ := (Option.any_eq_true ..).mp hbad
  obtain ⟨r, hr, hcap⟩ := List.any_eq_true.mp hnone
  obtain ⟨hrun, hacts⟩ := run_traceM hs
  refine ⟨_, s, hrun, hacts, not_throughout fun hover => ?_⟩
  rw [(hover.replies r hr).stored] at hcap
  cases hcap

/-- The seven calls of a worker up to its loop. -/
def setsUp (w : ℕ) : List Act := List.replicate 7 (.call w true)

/-- A work queue and a completion queue are created one after the other, and the work queue is
terminated. -/
def served : List Act :=
  .createWq 2 :: setsUp 0 ++ .reply :: .createCq 3 :: setsUp 1 ++ [.reply, .terminate 0]

/-- These events with the states they come in. -/
def servedSteps : List (State × Act) := traceM next init served

/-- Both queues are handed over. -/
theorem served_handsOver : ∃ s, Run Step init servedSteps s ∧ servedSteps.map Prod.snd = served ∧
    s.replies.map Reply.cap = [some 0, some 1] ∧ Throughout HandsOver servedSteps s := by
  have hserved : ((served.foldlM next init).any
      fun s => s.replies.map Reply.cap == [some 0, some 1]) = true := by decide +kernel
  have horderly : (servedSteps.all fun p => orderly p.1 p.2) = true := by decide +kernel
  obtain ⟨s, hs, hreplies⟩ := (Option.any_eq_true ..).mp hserved
  obtain ⟨hrun, hacts⟩ := run_traceM hs
  have hsteps : AllSteps Orderly servedSteps := List.all_eq_true.mp horderly
  exact ⟨s, hrun, hacts, beq_iff_eq.mp hreplies, (handsOver_iff_orderly _ s hrun).mpr hsteps⟩

end L4Rdma.Server
