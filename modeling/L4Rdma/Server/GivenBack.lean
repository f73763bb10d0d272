import L4Rdma.Server.Accounts

/-!
# What is given back

Only a worker that leaves its loop runs `cleanup`. The checks in `mem_alloc` and in `setup_and_start`
return without it, so that a worker keeps what it has got when a later call fails. Nothing is kept
exactly as long as no call fails after the slot for the memory has been taken
(`balanced_iff_failsEarly`).
-/

namespace L4Rdma.Resources

open Lib Lib.Ledger Server

/-- Worker `w` has not returned, and the members of its object name the slot. -/
def State.HasSlot (s : State) (w c : ℕ) : Prop :=
  ∃ wk, s.server.workers[w]? = some wk ∧ wk.phase ≠ .returned ∧
    ((s.impls w).mem wk.kind = some c ∨ (s.impls w).obj_cap = some c)

/-- Worker `w` has not returned, and its object has the address. -/
def State.HasRegion (s : State) (w addr : ℕ) : Prop :=
  ∃ wk, s.server.workers[w]? = some wk ∧ wk.phase ≠ .returned ∧
    (s.impls w).addr wk.kind = some addr

/-- A worker that has returned holds nothing, and the slots and the regions that are held are those of
the workers that have not returned. -/
structure Balanced (s : State) : Prop where
  returned : ∀ w wk, s.server.workers[w]? = some wk → wk.phase = .returned →
    ∀ p x, s.held p ≠ some (w, x)
  slots : ∀ w c, (∃ x, s.held (.slot c) = some (w, x)) ↔ s.HasSlot w c
  regions : ∀ w addr, (∃ x, s.held (.region addr) = some (w, x)) ↔ s.HasRegion w addr

/-- The worker has not got anything yet. -/
def early : Phase → Bool
  | .runThread => true
  | .capAlloc => true
  | _ => false

/-- A call fails only before the worker has got anything. -/
def failsEarly (s : State) : Act → Bool
  | .server (.call w false) _ =>
    match s.server.workers[w]? with
    | some wk => early wk.phase
    | none => true
  | _ => true

/-- A step in which nothing is lost. -/
def FailsEarly (s : State) (a : Act) : Prop := failsEarly s a = true

/-- The invariant of the runs in which nothing is lost. -/
structure Settled (s : State) : Prop extends Books s where
  none : ∀ w wk, s.server.workers[w]? = some wk → wk.phase = .returned → Account s.held w []

variable {s s' : State} {a : Act} {w c addr place : ℕ} {wk wk' : Worker} {kind : Kind} {o : Impl}
  {p : Phase} {l : List (Resource × Content)}

/-- The invariant holds at the start. -/
theorem settled_init : Settled init where
  toBooks := books_init
  none w wk h := by cases h

/-! ## The accounts and the members -/

/-- The slots of an account are those that the members name. -/
theorem Holds.slot_iff (h : Holds kind o p l) :
    (∃ x, (.slot c, x) ∈ l) ↔ o.mem kind = some c ∨ o.obj_cap = some c := by
  cases h with
  | runThread hnames | capAlloc hnames | memAlloc hnames | attach hnames | registerObj hnames =>
    obtain ⟨hmem, -, hobj⟩ := names_iff.mp hnames
    rw [hmem, hobj]
    simp [eq_comm]
  | registered _ hnames =>
    obtain ⟨hmem, -, hobj⟩ := names_iff.mp hnames
    rw [hmem, hobj]
    simp [eq_comm, or_comm, exists_or]

/-- Its regions are those at the addresses that they name. -/
theorem Holds.region_iff (h : Holds kind o p l) :
    (∃ x, (.region addr, x) ∈ l) ↔ o.addr kind = some addr := by
  cases h with
  | runThread hnames | capAlloc hnames | memAlloc hnames | attach hnames | registerObj hnames
  | registered _ hnames =>
    obtain ⟨-, haddr, -⟩ := names_iff.mp hnames
    rw [haddr]
    simp [eq_comm]

/-- A worker holds what its object names, if workers that have returned hold nothing. -/
theorem Settled.holds_iff (h : Settled s) (r : Resource) (names : Kind → Prop)
    (hnames : ∀ (wk : Worker) l, Holds wk.kind (s.impls w) wk.phase l →
      ((∃ x, (r, x) ∈ l) ↔ names wk.kind)) :
    (∃ x, s.held r = some (w, x)) ↔
      ∃ wk, s.server.workers[w]? = some wk ∧ wk.phase ≠ .returned ∧ names wk.kind := by
  constructor
  · rintro ⟨x, hx⟩
    rcases Nat.lt_or_ge w s.server.workers.length with hlt | hge
    · have hw := List.getElem?_eq_getElem hlt
      have hret : s.server.workers[w].phase ≠ .returned := fun hret =>
        account_nil.mp (h.none w _ hw hret) r x hx
      obtain ⟨l, hacc, hholds⟩ := h.worker w _ hw hret
      exact ⟨_, hw, hret, (hnames _ l hholds).mp ⟨x, (hacc.holds r x).mp hx⟩⟩
    · exact absurd hx (account_nil.mp (h.unborn w hge).1 r x)
  · rintro ⟨wk, hw, hret, hname⟩
    obtain ⟨l, hacc, hholds⟩ := h.worker w wk hw hret
    obtain ⟨x, hx⟩ := (hnames wk l hholds).mpr hname
    exact ⟨x, (hacc.holds r x).mpr hx⟩

/-- Then the accounts are balanced. -/
theorem Settled.balanced (h : Settled s) : Balanced s where
  returned w wk hw hret := account_nil.mp (h.none w wk hw hret)
  slots w c := h.holds_iff (.slot c)
    (fun kind => (s.impls w).mem kind = some c ∨ (s.impls w).obj_cap = some c)
    fun _ _ hholds => hholds.slot_iff
  regions w addr := h.holds_iff (.region addr) (fun kind => (s.impls w).addr kind = some addr)
    fun _ _ hholds => hholds.region_iff

/-! ## The invariant -/

/-- A step of a worker after which it has not returned, or holds nothing. -/
theorem Settled.turn (h : Settled s) (hw : s.server.workers[w]? = some wk) (t : Turn w wk' s s')
    (hnone : wk'.phase = .returned → Account s'.held w []) : Settled s' where
  toBooks := h.toBooks.turn hw t
  none v wk₁ hwk hret := by
    by_cases hv : v = w
    · subst hv
      obtain rfl := Option.some.inj ((t.worker_self hw).symm.trans hwk)
      exact hnone hret
    · exact (h.none v wk₁ ((t.worker_of_ne hv).symm.trans hwk) hret).frame hv t.frame

/-- A call that fails loses nothing in the early phases. -/
theorem failsEarly_call (hw : s.server.workers[w]? = some wk) :
    FailsEarly s (.server (.call w false) place) ↔ early wk.phase = true := by
  unfold FailsEarly failsEarly
  dsimp only
  rw [hw]

/-- Only calls fail. -/
theorem failsEarly_of_ne {b : Server.Act} (hb : ∀ w ok, b ≠ .call w ok) :
    FailsEarly s (.server b place) := by
  unfold FailsEarly failsEarly
  split
  · rename_i heq
    cases heq
    exact absurd rfl (hb _ _)
  · rfl

/-- Before its slot is taken a worker holds nothing, and from then on it holds something. -/
theorem Holds.early_iff (h : Holds kind o p l) : early p = true ↔ l = [] := by
  cases h with
  | registered hp _ => rcases hp with rfl | rfl | rfl <;> exact ⟨nofun, nofun⟩
  | runThread | capAlloc => exact ⟨fun _ => rfl, fun _ => rfl⟩
  | memAlloc | attach | registerObj => exact ⟨nofun, nofun⟩

/-- Steps in which nothing is lost keep the invariant. -/
theorem Settled.step (h : Settled s) (hstep : Step s a s') (hearly : FailsEarly s a) :
    Settled s' := by
  have hbooks : Books s' := h.toBooks.step hstep
  cases effect_of_step h.toBooks hstep with
  | create _ hworkers hphase =>
    refine ⟨hbooks, fun v wk₁ hwk hret => ?_⟩
    rcases Nat.lt_or_ge v s.server.workers.length with hlt | hge
    · refine h.none v wk₁ ?_ hret
      rw [← List.getElem?_append_left hlt, ← hworkers]
      exact hwk
    · exact (h.unborn v hge).1
  | quiet _ hworkers =>
    exact ⟨hbooks, fun v wk₁ hwk hret => h.none v wk₁ (hworkers ▸ hwk) hret⟩
  | succeed hw _ _ hret t => exact h.turn hw t fun heq => absurd heq hret
  | fail hw _ hret t hheld =>
    refine h.turn hw t fun _ => ?_
    obtain ⟨l, hacc, hholds⟩ := h.worker _ _ hw hret
    obtain rfl := hholds.early_iff.mp ((failsEarly_call hw).mp hearly)
    rw [hheld]
    exact hacc
  | terminate hw _ t hnone => exact h.turn hw t fun _ => hnone
  | get _ _ _ => exact ⟨hbooks, h.none⟩

/-- After a call that fails later the worker has returned with what it has got. -/
theorem Settled.not_balanced (h : Settled s) (hstep : Step s a s') (hearly : ¬ FailsEarly s a) :
    ¬ Balanced s' := by
  cases effect_of_step h.toBooks hstep with
  | create hcall => exact absurd (failsEarly_of_ne hcall) hearly
  | quiet hcall => exact absurd (failsEarly_of_ne hcall) hearly
  | succeed => exact absurd rfl hearly
  | @fail w _ wk _ hw _ hret t hheld =>
    obtain ⟨l, hacc, hholds⟩ := h.worker w wk hw hret
    rw [failsEarly_call hw, hholds.early_iff] at hearly
    obtain ⟨⟨r, x⟩, l', rfl⟩ := List.exists_cons_of_ne_nil hearly
    intro hbalanced
    apply hbalanced.returned w wk.return (t.worker_self hw) rfl r x
    rw [hheld]
    exact hacc.head
  | terminate => exact absurd rfl hearly
  | get => exact absurd rfl hearly

/-- In every run of the server and its workers, workers that have returned hold nothing, and the slots
and regions that are held are those of the others, exactly when no call of a worker fails after it has
taken its slot. -/
theorem balanced_iff_failsEarly (steps : List (State × Act)) (s : State)
    (h : Run Step init steps s) : Throughout Balanced steps s ↔ AllSteps FailsEarly steps :=
  h.all_iff (I := Settled) settled_init (fun _ h => h.balanced)
    (fun _ _ _ hs hstep hearly => hs.step hstep hearly)
    fun _ _ _ hs hstep hbad => hs.not_balanced hstep hbad

/-! ## Two runs -/

/-- A work queue is created and terminated, and the thread of a completion queue does not run. -/
def terminated : List Act :=
  created (.createWq 2) 0 1 100 2 ++
    [.server (.terminate 0) 0, .server (.createCq 2) 0, .server (.call 1 false) 0]

/-- Nothing is left. -/
theorem terminated_balanced : ∃ steps s, Run Step init steps s ∧ steps.map Prod.snd = terminated ∧
    Throughout Balanced steps s := by
  have hruns : (terminated.foldlM next init).isSome = true := by decide
  have hearly : ((traceM next init terminated).all fun p => failsEarly p.1 p.2) = true := by decide
  obtain ⟨s, hs⟩ := Option.isSome_iff_exists.mp hruns
  obtain ⟨hrun, hacts⟩ := run_traceM hs
  exact ⟨_, s, hrun, hacts,
    (balanced_iff_failsEarly _ s hrun).mpr fun p hp => List.all_eq_true.mp hearly p hp⟩

/-- There is no memory for a work queue. -/
def outOfMemory : List Act :=
  [.server (.createWq 2) 0, .server (.call 0 true) 0, .server (.call 0 true) 1,
    .server (.call 0 false) 0]

/-- Its worker has returned, and keeps the slot. -/
theorem outOfMemory_not_balanced : ∃ steps s, Run Step init steps s ∧
    steps.map Prod.snd = outOfMemory ∧ ¬ Throughout Balanced steps s := by
  have hbad : ((outOfMemory.foldlM next init).any fun s =>
      s.server.workers[0]?.any (fun wk => wk.phase == .returned) &&
        s.held (.slot 1) == some (0, .empty)) = true := by decide
  obtain ⟨s, hs, hboth⟩ := (Option.any_eq_true ..).mp hbad
  obtain ⟨hret, hheld⟩ := Bool.and_eq_true_iff.mp hboth
  obtain ⟨wk, hw, hphase⟩ := (Option.any_eq_true ..).mp hret
  rw [beq_iff_eq] at hphase hheld
  obtain ⟨hrun, hacts⟩ := run_traceM hs
  exact ⟨_, s, hrun, hacts, not_throughout fun hbalanced =>
    hbalanced.returned 0 wk hw hphase (.slot 1) .empty hheld⟩

end L4Rdma.Resources
