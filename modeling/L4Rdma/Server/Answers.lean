import L4Rdma.Server.Accounts

/-!
# The memory that clients get

`op_get_sq` answers with the receive queue, and nobody ever sets the member that `op_get_dbr` answers
with. So the answers refer to memory of the queue that was asked, and the same memory is not handed out
for two roles, exactly as long as no doorbell record is asked for and no queue is asked for both its
queues (`separate_iff_oneRole`). The memory of two queues is always different.
-/

namespace L4Rdma.Resources

open Lib Lib.Ledger Server

/-- An answer refers to a dataspace that was allocated for the queue and is allocated. -/
def Answer.Ok (a : Answer) : Prop := ∃ d, a.dataspace = some d ∧ a.owner = some a.worker

/-- All answers so far are such, and two of them refer to the same dataspace only if they are for the
same role of the same queue. -/
structure Separate (s : State) : Prop where
  answers : ∀ a ∈ s.answers, a.Ok
  apart : ∀ a ∈ s.answers, ∀ b ∈ s.answers, ∀ d, a.dataspace = some d → b.dataspace = some d →
    a.worker = b.worker ∧ a.role = b.role

/-- The request is not for a doorbell record, and earlier ones to the same queue were for the same
role. -/
def oneRole (s : State) : Act → Bool
  | .server _ _ => true
  | .get w role => role != .dbr && s.answers.all fun a => a.worker != w || a.role == role

/-- A step that keeps the roles apart. -/
def OneRole (s : State) (a : Act) : Prop := oneRole s a = true

/-- What is known of an answer later on: the dataspace has no other owner, and is still the one of the
worker if that is still in its loop. -/
structure Known (s : State) (a : Answer) (d : ℕ) : Prop where
  dataspace : a.dataspace = some d
  owner : a.owner = some a.worker
  old : d < s.fresh
  only : ∀ o x, s.held (.dataspace d) = some (o, x) → o = a.worker
  worker : ∃ wk, s.server.workers[a.worker]? = some wk ∧ (wk.phase = .loop ∨ wk.phase = .returned) ∧
    (wk.phase = .loop → ∃ x, s.held (.dataspace d) = some (a.worker, x))

/-- The invariant of the runs that keep the roles apart. -/
structure Answered (s : State) : Prop extends Books s, Separate s where
  known : ∀ a ∈ s.answers, ∃ d, Known s a d

variable {s s' : State} {a : Act} {b : Answer} {w d : ℕ} {wk wk' : Worker} {role : Role}

/-- The invariant holds at the start. -/
theorem answered_init : Answered init where
  toBooks := books_init
  answers _ ha := absurd ha List.not_mem_nil
  apart _ ha := absurd ha List.not_mem_nil
  known _ ha := absurd ha List.not_mem_nil

/-! ## What is known of an answer -/

/-- It stays known in a step of a worker that is in its setup or leaves its loop. -/
theorem Known.turn (h : Known s b d) (hw : s.server.workers[w]? = some wk)
    (hphase : wk.phase = .loop ∨ wk.phase = .returned → wk'.phase = .returned)
    (t : Turn w wk' s s') : Known s' b d := by
  obtain ⟨wk₁, hwk₁, hphase₁, hheld⟩ := h.worker
  refine ⟨h.dataspace, h.owner, h.old.trans_le t.grows, fun o x hx => ?_, ?_⟩
  · by_cases ho : o = w
    · subst ho
      rcases t.fresh d x hx with ⟨y, hy⟩ | ⟨hle, -⟩
      · exact h.only o y hy
      · exact absurd h.old (Nat.not_lt.mpr hle)
    · exact h.only o x ((t.frame o ho (.dataspace d) x).mp hx)
  · by_cases hv : b.worker = w
    · rw [hv] at hwk₁ ⊢
      obtain rfl := Option.some.inj (hw.symm.trans hwk₁)
      have hret := hphase hphase₁
      refine ⟨wk', t.worker_self hw, .inr hret, fun hloop => ?_⟩
      rw [hret] at hloop
      cases hloop
    · refine ⟨wk₁, (t.worker_of_ne hv).trans hwk₁, hphase₁, fun hloop => ?_⟩
      obtain ⟨x, hx⟩ := hheld hloop
      exact ⟨x, (t.frame b.worker hv (.dataspace d) x).mpr hx⟩

/-- It stays known when the server and the answers change only. -/
theorem Known.quiet (h : Known s b d) (hheld : s'.held = s.held) (hfresh : s'.fresh = s.fresh)
    (hworkers : ∀ (v : ℕ) (wk : Worker), s.server.workers[v]? = some wk → s'.server.workers[v]? = some wk) :
    Known s' b d := by
  obtain ⟨wk, hwk, hphase⟩ := h.worker
  refine ⟨h.dataspace, h.owner, hfresh.symm ▸ h.old, ?_, wk, hworkers _ wk hwk, ?_⟩
  · rw [hheld]
    exact h.only
  · rw [hheld]
    exact hphase

/-- A request for anything but a doorbell record is answered with the memory of the queue. -/
theorem serve_eq (hrole : role ≠ .dbr) (o : Impl) : role.serve o = o.mem role.kind := by
  cases role
  case dbr => exact absurd rfl hrole
  all_goals rfl

/-- The dataspace of such an answer is the only one that the worker holds. -/
theorem Books.answer (h : Books s) (hw : s.server.workers[w]? = some wk) (hloop : wk.phase = .loop)
    (hkind : wk.kind = role.kind) (hrole : role ≠ .dbr) :
    ∃ d, Known s (s.answer w role) d ∧ ∀ d' x, s.held (.dataspace d') = some (w, x) → d' = d := by
  obtain ⟨c, d, addr, g, hacc, hnames⟩ := h.loop hw hloop
  have hslot : s.held (.slot c) = some (w, .dataspace d) := (hacc.holds _ _).mpr (by simp)
  have hheld : s.held (.dataspace d) = some (w, .empty) := (hacc.holds _ _).mpr (by simp)
  have hserve : role.serve (s.impls w) = some c := by
    rw [serve_eq hrole, ← hkind]
    exact (names_iff.mp hnames).1
  have hin : s.dataspaceIn c = some d := dataspaceIn_of_held hslot
  have hanswer : s.answer w role = ⟨w, role, some d, some w⟩ := by
    unfold State.answer
    rw [hserve, Option.bind_some, hin]
    dsimp only
    rw [Option.bind_some, hheld, Option.map_some]
  rw [hanswer]
  refine ⟨d, ⟨rfl, rfl, h.fresh d w _ hheld, fun o x hx => ?_, wk, hw, .inl hloop, fun _ => ⟨_, hheld⟩⟩,
    fun d' x hx => ?_⟩
  · rw [hheld] at hx
    cases hx
    rfl
  · have hmem := (hacc.holds _ _).mp hx
    have heq : d' = d ∧ x = .empty := by simpa using hmem
    exact heq.1

/-- A request for the doorbell record is answered with an invalid capability. -/
theorem Books.answer_dbr (h : Books s) : ¬ (s.answer w .dbr).Ok := by
  rintro ⟨d, hd, -⟩
  have hserve : Role.serve (s.impls w) .dbr = none := h.dbr w
  unfold State.answer at hd
  rw [hserve] at hd
  cases hd

/-! ## The invariant -/

/-- A worker is asked for one thing only, and not for the doorbell record. -/
theorem oneRole_get : OneRole s (.get w role) ↔
    role ≠ .dbr ∧ ∀ b ∈ s.answers, b.worker = w → b.role = role := by
  unfold OneRole oneRole
  rw [Bool.and_eq_true, List.all_eq_true, bne_iff_ne]
  refine and_congr_right fun _ => forall₂_congr fun b _ => ?_
  rw [Bool.or_eq_true, bne_iff_ne, beq_iff_eq]
  exact imp_iff_not_or.symm

/-- A request is answered. -/
theorem Answered.get (h : Answered s) (hw : s.server.workers[w]? = some wk)
    (hloop : wk.phase = .loop) (hkind : wk.kind = role.kind) (hone : OneRole s (.get w role)) :
    Answered { s with answers := s.answers ++ [s.answer w role] } := by
  obtain ⟨hrole, hsame⟩ := oneRole_get.mp hone
  obtain ⟨d, hnew, -⟩ := h.toBooks.answer hw hloop hkind hrole
  have hworker : (s.answer w role).worker = w := rfl
  obtain ⟨wk₁, hwk₁, -, hheld⟩ := hnew.worker
  obtain rfl := Option.some.inj (hw.symm.trans hwk₁)
  obtain ⟨x, hx⟩ := hheld hloop
  -- An earlier answer with the same dataspace was one of the same worker.
  have hold : ∀ b ∈ s.answers, ∀ d', b.dataspace = some d' → (s.answer w role).dataspace = some d' →
      b.worker = w ∧ b.role = role := by
    intro b hb d' hbd hd'
    obtain rfl := Option.some.inj (hnew.dataspace.symm.trans hd')
    obtain ⟨d₁, hb₁⟩ := h.known b hb
    obtain rfl := Option.some.inj (hb₁.dataspace.symm.trans hbd)
    have hbw : b.worker = w := (hb₁.only w x hx).symm
    exact ⟨hbw, hsame b hb hbw⟩
  refine ⟨⟨h.fresh, h.unborn, h.dbr, h.worker⟩, ⟨fun b hb => ?_, fun b hb b' hb' d' hd hd' => ?_⟩,
    fun b hb => ?_⟩
  · rcases List.mem_append.mp hb with hb | hb
    · exact h.answers b hb
    · obtain rfl := List.mem_singleton.mp hb
      exact ⟨d, hnew.dataspace, hnew.owner⟩
  · -- Two answers are two old ones, or the new one is among them.
    rcases List.mem_append.mp hb with hb | hb <;> rcases List.mem_append.mp hb' with hb' | hb'
    · exact h.apart b hb b' hb' d' hd hd'
    · obtain rfl := List.mem_singleton.mp hb'
      exact hold b hb d' hd hd'
    · obtain rfl := List.mem_singleton.mp hb
      obtain ⟨hw', hr'⟩ := hold b' hb' d' hd' hd
      exact ⟨hw'.symm, hr'.symm⟩
    · rw [List.mem_singleton.mp hb, List.mem_singleton.mp hb']
      exact ⟨rfl, rfl⟩
  · rcases List.mem_append.mp hb with hb | hb
    · obtain ⟨d₁, hb₁⟩ := h.known b hb
      exact ⟨d₁, hb₁.quiet rfl rfl fun _ _ hv => hv⟩
    · obtain rfl := List.mem_singleton.mp hb
      exact ⟨d, hnew.quiet rfl rfl fun _ _ hv => hv⟩

/-- A step that does not answer keeps what is known of the answers. -/
theorem Answered.of_known (h : Answered s) (hbooks : Books s') (hanswers : s'.answers = s.answers)
    (hknown : ∀ b d, Known s b d → Known s' b d) : Answered s' := by
  refine ⟨hbooks, ⟨?_, ?_⟩, ?_⟩
  · rw [hanswers]
    exact h.answers
  · rw [hanswers]
    exact h.apart
  · rw [hanswers]
    exact fun b hb => (h.known b hb).imp (hknown b)

/-- Steps that keep the roles apart keep the invariant. -/
theorem Answered.step (h : Answered s) (hstep : Step s a s') (hone : OneRole s a) : Answered s' := by
  have hbooks : Books s' := h.toBooks.step hstep
  cases effect_of_step h.toBooks hstep with
  | create _ hworkers _ =>
    refine h.of_known hbooks rfl fun b d hb => hb.quiet rfl rfl fun v wk hv => ?_
    have hlt := (List.getElem?_eq_some_iff.mp hv).1
    rw [hworkers, List.getElem?_append_left hlt]
    exact hv
  | quiet _ hworkers =>
    refine h.of_known hbooks rfl fun b d hb => hb.quiet rfl rfl fun v wk hv => ?_
    rw [hworkers]
    exact hv
  | succeed hw hloop hret _ t =>
    exact h.of_known hbooks t.answers fun b d hb =>
      hb.turn hw (fun hphase => absurd hphase (not_or.mpr ⟨hloop, hret⟩)) t
  | fail hw _ _ t _ => exact h.of_known hbooks t.answers fun b d hb => hb.turn hw (fun _ => rfl) t
  | terminate hw _ t _ => exact h.of_known hbooks t.answers fun b d hb => hb.turn hw (fun _ => rfl) t
  | get hw hloop hkind => exact h.get hw hloop hkind hone

/-- A request that does not keep the roles apart gets a wrong answer. -/
theorem Answered.not_separate (h : Answered s) (hstep : Step s a s') (hone : ¬ OneRole s a) :
    ¬ Separate s' := by
  cases effect_of_step h.toBooks hstep with
  | create => exact absurd rfl hone
  | quiet => exact absurd rfl hone
  | succeed => exact absurd rfl hone
  | fail => exact absurd rfl hone
  | terminate => exact absurd rfl hone
  | @get w role wk hw hloop hkind =>
    have hnew : s.answer w role ∈ s.answers ++ [s.answer w role] :=
      List.mem_append_right _ (List.mem_singleton_self _)
    intro hseparate
    -- No worker has a dataspace for the doorbell records, so that answer is wrong in itself.
    have hrole : role ≠ .dbr := by
      rintro rfl
      exact h.toBooks.answer_dbr (hseparate.answers _ hnew)
    -- So an earlier answer was for another role, and the worker has had the same dataspace since then.
    rw [oneRole_get] at hone
    push Not at hone
    obtain ⟨b, hb, hbw, hne⟩ := hone hrole
    obtain ⟨d, hd, honly⟩ := h.toBooks.answer hw hloop hkind hrole
    obtain ⟨d', hb'⟩ := h.known b hb
    obtain ⟨wk', hwk', -, hheld⟩ := hb'.worker
    rw [hbw] at hwk' hheld
    obtain rfl := Option.some.inj (hw.symm.trans hwk')
    obtain ⟨x, hx⟩ := hheld hloop
    obtain rfl := honly d' x hx
    have hmem : b ∈ s.answers ++ [s.answer w role] := List.mem_append_left _ hb
    exact hne (hseparate.apart b hmem _ hnew d' hb'.dataspace hd.dataspace).2

/-- In every run of the server, its workers and their clients, each answer refers to an allocated
dataspace of the queue that was asked, and no dataspace is handed out for two queues or two roles,
exactly when no doorbell record is asked for and no queue is asked for two roles. -/
theorem separate_iff_oneRole (steps : List (State × Act)) (s : State) (h : Run Step init steps s) :
    Throughout Separate steps s ↔ AllSteps OneRole steps :=
  h.all_iff (I := Answered) answered_init (fun _ h => h.toSeparate)
    (fun _ _ _ hs hstep hone => hs.step hstep hone)
    fun _ _ _ hs hstep hbad => hs.not_separate hstep hbad

/-! ## Two runs -/

/-- A work queue and a completion queue are asked for their memory. -/
def askedOnce : List Act :=
  created (.createWq 2) 0 1 100 2 ++ created (.createCq 2) 1 3 200 4 ++ [.get 0 .rq, .get 1 .cq, .get 0 .rq]

/-- They answer with their own. -/
theorem askedOnce_separate : ∃ steps s, Run Step init steps s ∧ steps.map Prod.snd = askedOnce ∧
    Throughout Separate steps s := by
  have hruns : (askedOnce.foldlM next init).isSome = true := by decide
  have hone : ((traceM next init askedOnce).all fun p => oneRole p.1 p.2) = true := by decide
  obtain ⟨s, hs⟩ := Option.isSome_iff_exists.mp hruns
  obtain ⟨hrun, hacts⟩ := run_traceM hs
  exact ⟨_, s, hrun, hacts,
    (separate_iff_oneRole _ s hrun).mpr fun p hp => List.all_eq_true.mp hone p hp⟩

/-- A work queue is asked for both its queues. -/
def askedBoth : List Act := created (.createWq 2) 0 1 100 2 ++ [.get 0 .rq, .get 0 .sq]

/-- It answers with the same memory. -/
theorem askedBoth_not_separate : ∃ steps s, Run Step init steps s ∧ steps.map Prod.snd = askedBoth ∧
    ¬ Throughout Separate steps s := by
  have hbad : ((askedBoth.foldlM next init).any fun s =>
      s.answers == [⟨0, .rq, some 0, some 0⟩, ⟨0, .sq, some 0, some 0⟩]) = true := by decide
  obtain ⟨s, hs, hanswers⟩ := (Option.any_eq_true ..).mp hbad
  rw [beq_iff_eq] at hanswers
  obtain ⟨hrun, hacts⟩ := run_traceM hs
  refine ⟨_, s, hrun, hacts, not_throughout fun hseparate => ?_⟩
  have halias := hseparate.apart ⟨0, .rq, some 0, some 0⟩ (by rw [hanswers]; exact List.mem_cons_self)
    ⟨0, .sq, some 0, some 0⟩ (by rw [hanswers]; simp) 0 rfl rfl
  cases halias.2

end L4Rdma.Resources
