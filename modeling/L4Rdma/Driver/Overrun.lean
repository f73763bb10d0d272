import L4Rdma.Driver.Creating

/-!
# Accesses beyond a list of page addresses

`alloc_queue` allocates one entry of `pas_list` for each page and writes two, and `create_eq` and
`create_cq` read as many entries as they count pages. The context has a note of whether an access has
been beyond such a list. Here is when that happens, for each of these functions and each way in which
it can end (`overrun_iff`): as soon as there is a page, unless the function stops before it writes.
-/

namespace L4Rdma.Driver

open Lib Device

variable {δ Ctx : Type} {ctx ctx' : MLX5_Context δ} {l : Lens (MLX5_Context δ) (Q.State Ctx)}
  {p : PoolName} {qo : PA.ElementPtr} {size : ℕ}

/-! ## Parts that access no list -/

/-- The pool of queue objects has no share in the note. -/
theorem QueuePool.leaves_zoom (hl : QueuePool l p) {α : Type} (x : Exec (Q.State Ctx) α) :
    Leaves MLX5_Context.pas_overrun (l.zoom x) :=
  Lib.leaves_zoom (fun s ctx => by
    have hview := congrArg Q.Env.pas_overrun
      (hl.view_set { (queueEnv l).view ctx with qop := s } ctx)
    rw [← hl.set] at hview
    exact hview) x

/-- Reading the index of a UAR page takes no note. -/
theorem QueuePool.leaves_uarIndex (hl : QueuePool l p) (qo : PA.ElementPtr) :
    Leaves MLX5_Context.pas_overrun ((queueEnv l).zoom (Q.uarIndex qo)) := by
  have hindex : Leaves Q.Env.pas_overrun (Q.uarIndex qo : Exec (Q.Env Ctx) ℕ) := by
    unfold Q.uarIndex
    refine (Lib.leaves_zoom (fun _ _ => rfl) _).bind fun el => ?_
    refine (Lib.leaves_zoom (fun _ _ => rfl) _).bind fun uar => ?_
    exact leaves_pure _
  exact hindex.zoom (fun _ => rfl) fun e ctx => congrArg Q.Env.pas_overrun (hl.view_set e ctx)

variable {τ : Type} {f : MLX5_Context δ → τ}

/-- The logarithm of a size changes nothing. -/
theorem leaves_log2 (size : ℕ) : Leaves f (log2 size : Exec (MLX5_Context δ) ℕ) :=
  leaves_ite (leaves_throw _) (leaves_pure _)

/-- The set of event types changes nothing. -/
theorem leaves_eqType (type : Word) :
    Leaves f (Event.eqType type : Exec (MLX5_Context δ) (BitVec 64)) :=
  leaves_ite (leaves_pure _) (leaves_ite (leaves_pure _) (leaves_throw _))

/-- Writing to a local array changes nothing else. -/
theorem leaves_write (b : Local) (i : ℕ) (w : Word) :
    Leaves f (b.write i w : Exec (MLX5_Context δ) Local) :=
  leaves_ite (leaves_pure _) (leaves_throw _)

/-- Initializing an event queue leaves the record of the accesses. -/
theorem leaves_initEventQueue (eq : PA.ElementPtr) :
    Leaves MLX5_Context.pas_overrun (initEventQueue eq : Exec (MLX5_Context δ) Unit) := by
  unfold initEventQueue
  refine (eqLens_pool.leaves_zoom _).bind fun el => leaves_get.bind fun ctx => ?_
  exact (leaves_doIf (leaves_throw _)).bind fun _ => Lib.leaves_zoom (fun _ _ => rfl) _

/-- A command changes nothing but the state of the device and its arguments. -/
theorem leaves_create (hf : ∀ (ctx : MLX5_Context δ) w, f { ctx with hca := w } = f ctx)
    (D : CMD.HCA δ) (opcode : CMD.OPCODE) (payload : Buf) (payload_length : ℕ) :
    Leaves f (create D opcode payload payload_length) := by
  unfold create
  refine (Lib.leaves_zoom (fun _ _ => hf _ _) _).bind fun slot => leaves_get.bind fun ctx => ?_
  refine (Lib.leaves_zoom (fun _ _ => hf _ _) _).bind fun output => ?_
  exact leaves_ite (leaves_pure _) (leaves_throw _)

/-- Naming a queue leaves it as well. -/
theorem QueuePool.leaves_nameQueue (hl : QueuePool l p) (qo : PA.ElementPtr) (id : Word) :
    Leaves MLX5_Context.pas_overrun (nameQueue l qo id) :=
  (hl.leaves_zoom _).bind fun _ => hl.leaves_zoom _

/-! ## The functions that allocate queues -/

/-- The number of entries of the list of page addresses of a queue that is allocated from a pool. -/
def pasCount (l : Lens (MLX5_Context δ) (Q.State Ctx)) (ctx : MLX5_Context δ) (size : ℕ) : ℕ :=
  Q.pageCount size (l.view ctx).pool.data.page_entry_count

/-- `alloc_queue` goes beyond the list that it allocates as soon as there is a page, and it does not
come to that when it stops. -/
theorem QueuePool.allocQueue_overrun (hl : QueuePool l p) (h : Sound ctx) (size : ℕ) :
    Ends ((queueEnv l).zoom (Q.allocQueue size)) ctx
      (fun qo ctx' => Sound ctx' ∧
        ctx'.pas_overrun = (ctx.pas_overrun || decide (0 < pasCount l ctx size)) ∧
        ∃ d, ((queueEnv l).view ctx').queueAt qo = some d ∧ d.size = size)
      fun _ ctx' => ctx'.pas_overrun = ctx.pas_overrun := by
  have hroom := Q.allocQueue_room (e := (queueEnv l).view ctx) (hl.sound ctx h) h.uar size
  have hflag : ∀ e, ((queueEnv l).set e ctx).pas_overrun = e.pas_overrun := fun e =>
    congrArg Q.Env.pas_overrun (hl.view_set e ctx)
  refine hroom.zoom.mono ?_ ?_
  · rintro qo ctx' ⟨e, rfl, halloc⟩
    obtain ⟨d, up, m, uar, hat, -⟩ := halloc.data
    have hgrew := hl.grew h halloc.queue (by rw [halloc.pool_data]; rfl) halloc.uar halloc.services
    exact ⟨hgrew.sound, (hflag e).trans halloc.pas_overrun, _, by rw [hl.view_set]; exact hat, rfl⟩
  · rintro err ctx' ⟨e, rfl, hsame, -⟩
    exact (hflag e).trans hsame

/-- Copying no page addresses takes no note. -/
theorem leaves_copyPas_zero (l : Lens (MLX5_Context δ) (Q.State Ctx)) (qo : PA.ElementPtr)
    (start : ℕ) (payload : Local) {n : ℕ} (hn : n = 0) :
    Leaves MLX5_Context.pas_overrun (forRange n payload (copyPas l qo start)) := by
  subst hn
  exact leaves_pure payload

/-- With no list and no pages, `create_eq` comes to its payload with the note as it was. -/
theorem startEq_overrun (h : Sound ctx) {size : ℕ} (hlist : pasCount eqLens ctx size = 0)
    (hcount : Q.pageCount size Event.PAGE_EQE_COUNT = 0) (type irq_num : Word) :
    Ends (startEq size type irq_num) ctx
      (fun r ctx' => r.2.2 = 0 ∧ ctx'.pas_overrun = ctx.pas_overrun)
      fun _ ctx' => ctx'.pas_overrun = ctx.pas_overrun := by
  unfold startEq
  refine (eqLens_pool.allocQueue_overrun h size).bind ?_
  rintro eq ctx₁ ⟨hsound, hflag, d, hat, hsize⟩
  -- `alloc_queue` counts no page and so writes none.
  have hsame : ctx₁.pas_overrun = ctx.pas_overrun := by
    rw [hflag, hlist]
    exact Bool.or_false _
  obtain ⟨ctx₂, hstore, -, hview⟩ := eqLens_pool.store_ok hsound hat
    fun d => { d with q_ctx := ⟨irq_num, type⟩ }
  have hsame₂ : ctx₂.pas_overrun = ctx.pas_overrun :=
    (congrArg Q.Env.pas_overrun hview).trans hsame
  have hat₂ : ((queueEnv eqLens).view ctx₂).queueAt eq =
      some { d with q_ctx := ⟨irq_num, type⟩ } := by
    rw [hview]
    exact Q.Env.queueAt_setQueue hat
  obtain ⟨el, hderef, hel⟩ := eqLens_pool.deref_ok hat₂
  -- `create_eq` counts none either and so reads none.
  have hpages : Q.pageCount el.data.size Event.PAGE_EQE_COUNT = 0 := by
    rw [hel]
    exact (congrArg (Q.pageCount · _) hsize).trans hcount
  refine Ends.bind_of_ok hstore (Ends.bind_of_ok hderef ?_)
  rw [← hsame₂, hpages, if_neg (Nat.not_lt_zero _)]
  -- What is left reads the size and the UAR page of the queue.
  refine (leaves_log2 _ ctx₂).bind fun log_size ctx₃ heq₃ => ?_
  rw [← heq₃]
  refine (eqLens_pool.leaves_uarIndex eq ctx₃).bind fun uar ctx₄ heq₄ => ?_
  rw [← heq₄]
  exact (leaves_eqType _ ctx₄).bind fun mask ctx₅ heq₅ => ends_pure ⟨rfl, heq₅⟩

/-- How `create_eq` leaves the note up to its command. -/
theorem prepareEq_overrun (h : Sound ctx) (size : ℕ) (type irq_num : Word) :
    Ends (prepareEq size type irq_num) ctx
      (fun _ ctx' => ctx'.pas_overrun = (ctx.pas_overrun || (decide (0 < pasCount eqLens ctx size) ||
        decide (pasCount eqLens ctx size < Q.pageCount size Event.PAGE_EQE_COUNT))))
      fun _ ctx' => pasCount eqLens ctx size = 0 → Q.pageCount size Event.PAGE_EQE_COUNT = 0 →
        ctx'.pas_overrun = ctx.pas_overrun := by
  refine ⟨fun r ctx' hres => ?_, fun err ctx' herr hlist hcount => ?_⟩
  · obtain ⟨-, hprep, -⟩ := (takes_prepareEq (still δ) h size type irq_num).1 _ _ hres
    exact hprep.pas_overrun
  · have hends : Ends (prepareEq size type irq_num) ctx (fun _ _ => True)
        fun _ ctx' => ctx'.pas_overrun = ctx.pas_overrun := by
      unfold prepareEq fillEq
      refine (startEq_overrun h hlist hcount type irq_num).bind ?_
      rintro ⟨eq, eqi, page_count⟩ ctx₁ ⟨hpages, hsame⟩
      rw [← hsame]
      -- The loops read no list, since there are no pages.
      suffices hleaves : Leaves MLX5_Context.pas_overrun _ from
        (hleaves ctx₁).mono (fun _ _ _ => trivial) fun _ _ hs => hs
      refine Leaves.bind ?_ fun payload => (leaves_initEventQueue eq).bind fun _ => leaves_pure _
      refine (leaves_forRange fun i payload => leaves_write payload _ _).bind fun payload => ?_
      exact leaves_copyPas_zero eqLens eq _ payload hpages
    exact hends.2 _ _ herr

/-- With no list, `create_cq` comes to its payload with the note as it was. -/
theorem startCq_overrun (h : Sound ctx) {size : ℕ} (hlist : pasCount cqLens ctx size = 0)
    (phys : ℕ) (eq_number : Word) :
    Ends (startCq phys eq_number size) ctx
      (fun r ctx' => r.2.2 = Q.pageCount size CQ.PAGE_CQE_COUNT ∧
        ctx'.pas_overrun = ctx.pas_overrun)
      fun _ ctx' => ctx'.pas_overrun = ctx.pas_overrun := by
  unfold startCq
  refine (cqLens_pool.allocQueue_overrun h size).bind ?_
  rintro cq ctx₁ ⟨-, hflag, -⟩
  have hsame : ctx₁.pas_overrun = ctx.pas_overrun := by
    rw [hflag, hlist]
    exact Bool.or_false _
  rw [← hsame]
  refine (leaves_log2 size ctx₁).bind fun log_size ctx₂ heq₂ => ?_
  rw [← heq₂]
  exact (cqLens_pool.leaves_uarIndex cq ctx₂).bind fun uar ctx₃ heq₃ => ends_pure ⟨rfl, heq₃⟩

/-- How `create_cq` leaves it between the allocation of its queue and its command. -/
theorem prepareCq_overrun (h : Sound ctx) (phys : ℕ) (eq_number : Word) (size : ℕ) :
    Ends (prepareCq phys eq_number size) ctx
      (fun _ ctx' => ctx'.pas_overrun = (ctx.pas_overrun || (decide (0 < pasCount cqLens ctx size) ||
        decide (pasCount cqLens ctx size < Q.pageCount size CQ.PAGE_CQE_COUNT))))
      fun _ ctx' => pasCount cqLens ctx size = 0 → Q.pageCount size CQ.PAGE_CQE_COUNT = 0 →
        ctx'.pas_overrun = ctx.pas_overrun := by
  refine ⟨fun r ctx' hres => ?_, fun err ctx' herr hlist hcount => ?_⟩
  · obtain ⟨-, hprep, -⟩ := (takes_prepareCq (still δ) h phys eq_number size).1 _ _ hres
    exact hprep.pas_overrun
  · have hends : Ends (prepareCq phys eq_number size) ctx (fun _ _ => True)
        fun _ ctx' => ctx'.pas_overrun = ctx.pas_overrun := by
      unfold prepareCq fillCq
      refine (startCq_overrun h hlist phys eq_number).bind ?_
      rintro ⟨cq, cqc, page_count⟩ ctx₁ ⟨hpages, hsame⟩
      rw [← hsame]
      suffices hleaves : Leaves MLX5_Context.pas_overrun _ from
        (hleaves ctx₁).mono (fun _ _ _ => trivial) fun _ _ hs => hs
      refine Leaves.bind ?_ fun payload => leaves_pure _
      refine (leaves_write _ _ _).bind fun payload => (leaves_write payload _ _).bind fun payload => ?_
      refine (leaves_forRange fun i payload => leaves_write payload _ _).bind fun payload => ?_
      exact leaves_copyPas_zero cqLens cq _ payload (hpages.trans hcount)
    exact hends.2 _ _ herr

/-- The command of `create_eq`, and what comes after it, access no list. -/
theorem createEq_overrun (D : CMD.HCA δ) (h : Sound ctx) (size : ℕ) (type irq_num : Word) :
    Ends (createEq D size type irq_num) ctx
      (fun _ ctx' => ctx'.pas_overrun = (ctx.pas_overrun || (decide (0 < pasCount eqLens ctx size) ||
        decide (pasCount eqLens ctx size < Q.pageCount size Event.PAGE_EQE_COUNT))))
      fun _ ctx' => pasCount eqLens ctx size = 0 → Q.pageCount size Event.PAGE_EQE_COUNT = 0 →
        ctx'.pas_overrun = ctx.pas_overrun := by
  unfold createEq
  refine (prepareEq_overrun h size type irq_num).bind ?_
  rintro ⟨eq, payload, payload_length⟩ ctx₁ hflag
  have hnone (hlist : pasCount eqLens ctx size = 0)
      (hcount : Q.pageCount size Event.PAGE_EQE_COUNT = 0) :
      ctx₁.pas_overrun = ctx.pas_overrun := by
    rw [hflag, hlist, hcount]
    exact Bool.or_false _
  suffices hleaves : Leaves MLX5_Context.pas_overrun _ from
    (hleaves ctx₁).mono (fun _ _ hsame => hsame.trans hflag) fun _ _ hsame hlist hcount =>
      hsame.trans (hnone hlist hcount)
  refine leaves_get.bind fun ctx => (leaves_create (fun _ _ => rfl) D _ _ _).bind fun id => ?_
  exact (eqLens_pool.leaves_nameQueue eq id).bind fun _ => leaves_pure id

/-- `create_cq` goes beyond the list of its event queue of four entries, if beyond no other. -/
theorem createCq_overrun (D : CMD.HCA δ) (h : Sound ctx) (size : ℕ) :
    Ends (createCq D size) ctx (fun _ ctx' => ctx'.pas_overrun = true) fun _ _ => True := by
  unfold createCq
  refine (Ends.mono (takes_allocPage D h) (fun _ _ h => h) fun _ _ _ => trivial).bind ?_
  rintro mp ctx₁ ⟨hgrew, s, el, rfl, hel⟩
  have hsound := hgrew.sound
  refine Ends.bind_of_ok (Lens.zoom_of_ok (PA.derefElement_ok hel)) ?_
  have hpos : 0 < pasCount eqLens (memLens.set s ctx) 4 :=
    (Q.pageCount_bounds (by decide) (by decide) hsound.event_count).1
  have heq : Ends (createEq D 4 Event.EVENT_TYPE_COMPLETION_EVENT 0) (memLens.set s ctx)
      (fun _ ctx' => Sound ctx' ∧ ctx'.pas_overrun = true) fun _ _ => True := by
    refine ⟨fun id ctx' hres => ⟨((takes_createEq D hsound _ _ _).1 _ _ hres).1.sound, ?_⟩,
      fun _ _ _ => trivial⟩
    rw [(createEq_overrun D hsound _ _ _).1 _ _ hres, decide_eq_true hpos, Bool.true_or, Bool.or_true]
  refine heq.bind ?_
  rintro eq_number ctx₂ ⟨hsound₂, hflag₂⟩
  refine ((prepareCq_overrun hsound₂ _ eq_number size).mono (fun _ _ h => h) fun _ _ _ => trivial).bind ?_
  rintro ⟨cq, payload, payload_length⟩ ctx₃ hflag₃
  rw [hflag₂, Bool.true_or] at hflag₃
  suffices hleaves : Leaves MLX5_Context.pas_overrun _ from
    (hleaves ctx₃).mono (fun _ _ hsame => hsame.trans hflag₃) fun _ _ _ => trivial
  refine leaves_get.bind fun ctx => (leaves_create (fun _ _ => rfl) D _ _ _).bind fun id => ?_
  exact (cqLens_pool.leaves_nameQueue cq id).bind fun _ => leaves_pure id

/-! ## When a list is overrun -/

/-- The note says that no access was beyond a list exactly when there was neither a page to write the
address of nor one to read it. -/
theorem note_eq_false {flag : Bool} {n k : ℕ} (hflag : flag = false) :
    (flag || (decide (0 < n) || decide (n < k))) = false ↔ n = 0 ∧ k = 0 := by
  rw [hflag, Bool.false_or, Bool.or_eq_false_iff, decide_eq_false_iff_not, decide_eq_false_iff_not]
  omega

/-- From a state in which no list has been overrun: `alloc_queue` overruns none exactly when it counts
no page or stops, and `create_eq` and `create_cq` overrun none for their own queue exactly when they
count none either. `create_cq` as a whole always does, because of its event queue. -/
theorem overrun_iff (D : CMD.HCA δ) (h : Sound ctx) (hnone : ctx.pas_overrun = false) (size : ℕ) :
    (∀ (Ctx : Type) (e : Q.Env Ctx), PA.Sound e.qop → PA.Sound e.uar_page_pool →
      e.pas_overrun = false →
      Ends (Q.allocQueue size) e
        (fun _ e' => e'.pas_overrun = false ↔
          Q.pageCount size e.qop.pool.data.page_entry_count = 0)
        fun _ e' => e'.pas_overrun = false) ∧
    (∀ type irq_num, Ends (createEq D size type irq_num) ctx
      (fun _ ctx' => ctx'.pas_overrun = false ↔
        pasCount eqLens ctx size = 0 ∧ Q.pageCount size Event.PAGE_EQE_COUNT = 0)
      fun _ ctx' => pasCount eqLens ctx size = 0 → Q.pageCount size Event.PAGE_EQE_COUNT = 0 →
        ctx'.pas_overrun = false) ∧
    (∀ phys eq_number, Ends (prepareCq phys eq_number size) ctx
      (fun _ ctx' => ctx'.pas_overrun = false ↔
        pasCount cqLens ctx size = 0 ∧ Q.pageCount size CQ.PAGE_CQE_COUNT = 0)
      fun _ ctx' => pasCount cqLens ctx size = 0 → Q.pageCount size CQ.PAGE_CQE_COUNT = 0 →
        ctx'.pas_overrun = false) ∧
    Ends (createCq D size) ctx (fun _ ctx' => ctx'.pas_overrun = true) fun _ _ => True := by
  refine ⟨fun Ctx e hq hu hflag => ?_, fun type irq_num => ?_, fun phys eq_number => ?_,
    createCq_overrun D h size⟩
  · refine (Q.allocQueue_room hq hu size).mono (fun qo e' halloc => ?_) fun err e' hstop => ?_
    · -- Each page that is counted has two words in the list, and there is room for one.
      rw [halloc.pas_overrun, hflag, Bool.false_or, decide_eq_false_iff_not]
      omega
    · exact hstop.1.trans hflag
  · -- With no note before, the note is that of the queue's own list.
    refine (createEq_overrun D h size type irq_num).mono (fun id ctx' hflag => ?_)
      fun err ctx' hstop hlist hcount => (hstop hlist hcount).trans hnone
    rw [hflag]
    exact note_eq_false hnone
  · refine (prepareCq_overrun h phys eq_number size).mono (fun id ctx' hflag => ?_)
      fun err ctx' hstop hlist hcount => (hstop hlist hcount).trans hnone
    rw [hflag]
    exact note_eq_false hnone

/-- The event queues of four entries that the driver creates, and a list for no entry at all. -/
theorem fourEntries_overrun_iff :
    (∃ eq_number ctx', createEq (still Unit) 4 0 0 startContext = .ok eq_number ctx' ∧
      (ctx'.pas_overrun = false ↔
        pasCount eqLens startContext 4 = 0 ∧ Q.pageCount 4 Event.PAGE_EQE_COUNT = 0)) ∧
    Ends (Q.allocQueue 0) ((queueEnv eqLens).view startContext)
      (fun _ e' => e'.pas_overrun = false ↔ Q.pageCount 0 64 = 0)
      fun _ e' => e'.pas_overrun = false := by
  constructor
  · obtain ⟨eq_number, ctx', hres, -⟩ := (takes_createEq (still Unit) startContext_sound 4 0 0).returns
      (granted_still _) (by decide)
      (startContext_room fun p => by cases p <;> exact Nat.le_of_ble_eq_true rfl)
    exact ⟨eq_number, ctx', hres,
      ((overrun_iff (still Unit) startContext_sound rfl 4).2.1 0 0).1 _ _ hres⟩
  · exact (overrun_iff (still Unit) startContext_sound rfl 0).1 _ _ startContext_sound.event
      startContext_sound.uar rfl

/-- An event queue of four entries has one page, and so a list with one entry, to which two words are
written. -/
theorem fourEntries_overrun :
    ∃ eq ctx', (queueEnv eqLens).zoom (Q.allocQueue 4) startContext = .ok eq ctx' ∧
      startContext.pas_overrun = false ∧ Q.pageCount 4 64 = 1 ∧ ctx'.pas_overrun = true := by
  obtain ⟨eq, ctx', hres, -, e, rfl, halloc⟩ :=
    (eqLens_pool.takes_allocQueue (by decide) (still Unit) startContext_sound 4).returns
      (granted_still _) trivial
      (startContext_room fun p => by cases p <;> exact Nat.le_of_ble_eq_true rfl)
  exact ⟨eq, _, hres, rfl, rfl, halloc.pas_overrun⟩

end L4Rdma.Driver
