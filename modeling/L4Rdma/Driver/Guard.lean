import L4Rdma.Driver.Exhaustion
import L4Rdma.Driver.Overrun
import L4Rdma.Queue.Release

/-!
# The event queues of the index

`create_eq` in `server/src/event.cc` refuses a queue with more than 31 pages after it has allocated
it, and enters the others in the index of their pool. Nothing else enters event queues in the index,
and the size of a queue is never changed, so wherever the driver comes to (`Evolves`) the queues of
the index have few pages (`Evolves.guarded`).
-/

namespace L4Rdma.Driver

open Lib

variable {δ : Type} {ctx ctx' : MLX5_Context δ} {size : ℕ} {eq : PA.ElementPtr}

/-! ## Queues with few pages -/

/-- The event queues of the index have few pages. -/
def Few (s : Q.State Event.EQ_CTX) (l : List PA.BlockPtr) : Prop :=
  ∀ k eq, s.pool.data.index k = some eq → PA.UsedAt s l eq ∧
    ∃ d, s.heap.dataAt eq = some d ∧ Q.pageCount d.size 64 ≤ 31

/-- The pool of event queues is well formed, and the queues of its index have few pages. -/
def Guarded (s : Q.State Event.EQ_CTX) : Prop := ∃ pre l, PA.Rep s pre l ∧ Few s l

/-- In addition there is a queue that is not in the index yet. -/
structure Pending (s : Q.State Event.EQ_CTX) (eq : PA.ElementPtr) (size : ℕ) : Prop where
  rep : ∃ pre l, PA.Rep s pre l ∧ Few s l ∧ PA.UsedAt s l eq
  unindexed : ∀ k, s.pool.data.index k ≠ some eq
  data : ∃ d, s.heap.dataAt eq = some d ∧ d.size = size

variable {s : Q.State Event.EQ_CTX} {l : List PA.BlockPtr} {d : Q.ED Event.EQ_CTX}

/-- Writing to a queue, which must not make it larger if it is in the index. -/
theorem Few.setData (h : Few s l)
    (hd : ∀ k, s.pool.data.index k = some eq → Q.pageCount d.size 64 ≤ 31) :
    Few (s.setData eq d) l := by
  intro k eq' hk
  rw [PA.State.setData_pool] at hk
  obtain ⟨hused, d', hd', hle⟩ := h k eq' hk
  refine ⟨PA.State.usedAt_setData.mpr hused, ?_⟩
  by_cases heq : eq' = eq
  · subst heq
    exact ⟨d, PA.State.dataAt_setData_self hd', hd k hk⟩
  · exact ⟨d', (PA.State.dataAt_setData_of_ne heq).trans hd', hle⟩

/-- Without the queue that is not in the index yet. -/
theorem Pending.guarded (h : Pending s eq size) : Guarded s := by
  obtain ⟨pre, l, hrep, hfew, -⟩ := h.rep
  exact ⟨pre, l, hrep, hfew⟩

/-- Writing to the queue itself. -/
theorem Pending.setData (h : Pending s eq size) (d : Q.ED Event.EQ_CTX) :
    Pending (s.setData eq d) eq d.size where
  rep := by
    obtain ⟨pre, l, hrep, hfew, hused⟩ := h.rep
    exact ⟨pre, l, hrep.setData eq d, hfew.setData fun k hk => absurd hk (h.unindexed k),
      PA.State.usedAt_setData.mpr hused⟩
  unindexed k := by
    rw [PA.State.setData_pool]
    exact h.unindexed k
  data := by
    obtain ⟨d', hd', -⟩ := h.data
    exact ⟨d, PA.State.dataAt_setData_self hd', rfl⟩

/-- A queue with few pages may be entered in the index. -/
theorem Pending.index (h : Pending s eq size) (hle : Q.pageCount size 64 ≤ 31) (id : ℕ) :
    Guarded (s.setPoolData (s.pool.data.setIndex id (some eq))) := by
  obtain ⟨pre, l, hrep, hfew, hused⟩ := h.rep
  obtain ⟨d, hd, hsize⟩ := h.data
  refine ⟨pre, l, hrep.setPoolData _, fun k eq' hk => ?_⟩
  have hindex : Function.update s.pool.data.index id (some eq) k = some eq' := hk
  by_cases hid : k = id
  · rw [hid, Function.update_self] at hindex
    obtain rfl : eq = eq' := Option.some.inj hindex
    exact ⟨hused, d, hd, hsize.symm ▸ hle⟩
  · rw [Function.update_of_ne hid] at hindex
    exact hfew k eq' hindex

/-- `alloc_queue` leaves a queue that is not in the index. -/
theorem Guarded.alloc (h : Sound ctx) (hguarded : Guarded ctx.event_queue_pool) (size : ℕ) :
    Ends ((queueEnv eqLens).zoom (Q.allocQueue size)) ctx
      (fun eq ctx' => Pending ctx'.event_queue_pool eq size) fun _ _ => True := by
  obtain ⟨pre, l, hrep, hfew⟩ := hguarded
  obtain ⟨pre', l', hrep'⟩ := h.uar.rep
  -- What the function for all kinds of queues does, on the pools of event queues and of UAR pages.
  let e : Q.Env Event.EQ_CTX := (queueEnv eqLens).view ctx
  have hends : Ends (Q.allocQueue size) e (fun eq e' => Pending e'.qop eq size) fun _ _ => True := by
    have hout := Q.allocQueue_cases (e := e) hrep h.event.block_size_pos hrep' h.uar.block_size_pos
      size
    generalize hres : Q.allocQueue size e = res at hout
    cases hout with
    | noQueue hfull u => exact ends_of_error hres trivial
    | noUar hlt hfull s => exact ends_of_error hres trivial
    | stops hlt hlt' eq up d e₁ htook err e' hfill => exact ends_of_error hres trivial
    | ok hlt hlt' eq up d e₁ htook e' hfill =>
      -- A queue object has been taken. It is in no index, since those in the index were used before.
      obtain ⟨l₁, ht⟩ := htook.queue
      have hpending : Pending e₁.qop eq d.size := {
        rep := by
          refine ⟨pre, l₁, ht.rep, fun k eq' hk => ?_, (ht.used eq).mpr (.inr rfl)⟩
          rw [ht.pool_data] at hk
          obtain ⟨hused, d', hd', hle⟩ := hfew k eq' hk
          exact ⟨(ht.used eq').mpr (.inl hused), d', (ht.data eq' hused.1).trans hd', hle⟩
        unindexed := fun k hk => by
          rw [ht.pool_data] at hk
          exact ht.unused (hfew k eq hk).1
        data := ⟨d, htook.data, rfl⟩ }
      have hclaim : Pending (e₁.qop.setData eq (d.claim up size)) eq size := hpending.setData _
      -- Filling it in only writes to it.
      cases hfill with
      | ok hpos n hn m dma hdma => exact ends_of_ok hres (hclaim.setData _)
  refine hends.zoom.mono ?_ fun _ _ _ => trivial
  rintro eq ctx' ⟨e', rfl, hpending⟩
  exact hpending

/-! ## What the functions leave as it is -/

section Leaving

variable {τ : Type} {f : MLX5_Context δ → τ}

/-- The loops of `create_eq` leave what reading the page addresses leaves. -/
theorem leaves_fillEq {eq : PA.ElementPtr}
    (hread : ∀ i, Leaves f ((queueEnv eqLens).zoom (Q.readPas eq i))) (eqi : Event.EQI) (n : ℕ) :
    Leaves f (fillEq eq eqi n : Exec (MLX5_Context δ) Local) := by
  unfold fillEq
  refine (leaves_forRange fun i payload => leaves_write payload _ _).bind fun payload => ?_
  exact leaves_forRange fun i payload => (hread i).bind fun w => leaves_write payload _ _

/-- Marking the entries of an event queue changes their memory only. -/
theorem leaves_initEntries {eq : PA.ElementPtr}
    (hderef : Leaves f (eqLens.zoom (PA.derefElement (some eq))))
    (heqe : ∀ eqe ctx, f { ctx with eqe := eqe } = f ctx) :
    Leaves f (initEventQueue eq : Exec (MLX5_Context δ) Unit) := by
  unfold initEventQueue
  refine hderef.bind fun el => leaves_get.bind fun ctx => ?_
  exact (leaves_doIf (leaves_throw _)).bind fun _ => leaves_zoom (fun _ _ => heqe _ _) _

/-- `create_cq` from the allocation of its queue on works on the pools of completion queues and of UAR
pages, and on the device. -/
theorem leaves_finishCq (henv : ∀ e ctx, f ((queueEnv cqLens).set e ctx) = f ctx)
    (hcq : ∀ s ctx, f (cqLens.set s ctx) = f ctx) (hhca : ∀ ctx w, f { ctx with hca := w } = f ctx)
    (D : CMD.HCA δ) (phys : ℕ) (eq_number : Word) (size : ℕ) :
    Leaves f (do
      let (cq, payload, payload_length) ← prepareCq phys eq_number size
      let ctx ← get
      let cq_number ← create D .CREATE_CQ (payload.toBuf ctx.uninit) payload_length
      nameQueue cqLens cq cq_number
      return cq_number) := by
  have hprepare : Leaves f (prepareCq phys eq_number size) := by
    have hstart : Leaves f (startCq phys eq_number size) := by
      unfold startCq
      refine (leaves_zoom henv _).bind fun cq => (leaves_log2 size).bind fun log_size => ?_
      exact (leaves_zoom henv _).bind fun uar => leaves_pure _
    unfold prepareCq fillCq
    refine hstart.bind fun r => Leaves.bind ?_ fun payload => leaves_pure _
    refine (leaves_write _ _ _).bind fun payload => (leaves_write payload _ _).bind fun payload => ?_
    refine (leaves_forRange fun i payload => leaves_write payload _ _).bind fun payload => ?_
    refine leaves_forRange fun i payload => ?_
    exact (leaves_zoom henv _).bind fun w => leaves_write payload _ _
  refine hprepare.bind fun r => leaves_get.bind fun ctx => ?_
  refine (leaves_create hhca D _ _ _).bind fun cq_number => ?_
  refine Leaves.bind ?_ fun _ => leaves_pure _
  exact (leaves_zoom hcq _).bind fun _ => leaves_zoom hcq _

/-! ## What leaves the pool of event queues -/

/-- Reading a queue object leaves the event queues. -/
theorem leaves_derefEq (qo : PA.ElementPtr) :
    Leaves MLX5_Context.event_queue_pool
      (eqLens.zoom (PA.derefElement (some qo)) : Exec (MLX5_Context δ) _) :=
  (PA.leaves_derefElement _).zoom (fun _ => rfl) fun _ _ => rfl

/-- So does reading a page address. -/
theorem leaves_readPas (qo : PA.ElementPtr) (i : ℕ) :
    Leaves MLX5_Context.event_queue_pool
      ((queueEnv eqLens).zoom (Q.readPas qo i) : Exec (MLX5_Context δ) Word) := by
  have hread : Leaves Q.Env.qop (Q.readPas qo i : Exec (Q.Env Event.EQ_CTX) Word) := by
    unfold Q.readPas
    refine ((PA.leaves_derefElement _).zoom (fun _ => rfl) fun _ _ => rfl).bind fun el => ?_
    exact (show Leaves Q.Env.qop (Q.notePas el.data.pas_list i) from
      fun e => ends_of_ok (modify_apply _ e) rfl).bind fun _ => leaves_pure _
  exact hread.zoom (fun _ => rfl) fun _ _ => rfl

/-- So does reading the index of the UAR page. -/
theorem leaves_eqUarIndex (qo : PA.ElementPtr) :
    Leaves MLX5_Context.event_queue_pool
      ((queueEnv eqLens).zoom (Q.uarIndex qo) : Exec (MLX5_Context δ) ℕ) := by
  have hread : Leaves Q.Env.qop (Q.uarIndex qo : Exec (Q.Env Event.EQ_CTX) ℕ) := by
    unfold Q.uarIndex
    refine ((PA.leaves_derefElement _).zoom (fun _ => rfl) fun _ _ => rfl).bind fun el => ?_
    exact (leaves_zoom (fun _ _ => rfl) _).bind fun uar => leaves_pure _
  exact hread.zoom (fun _ => rfl) fun _ _ => rfl

/-- `create_wqc` does not touch event queues. -/
theorem leaves_createWqc (D : CMD.HCA δ) (size : ℕ) (wq_number : Word) :
    Leaves MLX5_Context.event_queue_pool (createWqc D size wq_number) := by
  unfold createWqc nameQueue allocPd
  refine (leaves_zoom (fun _ _ => rfl) _).bind fun wq => ?_
  refine ((leaves_zoom (fun _ _ => rfl) _).bind fun _ => leaves_zoom (fun _ _ => rfl) _).bind fun _ => ?_
  refine (leaves_zoom (fun _ _ => rfl) _).bind fun mp => (leaves_zoom (fun _ _ => rfl) _).bind fun el => ?_
  refine (leaves_zoom (fun _ _ => rfl) _).bind fun _ => ?_
  refine (leaves_create (fun _ _ => rfl) D _ _ _).bind fun pd => ?_
  refine (leaves_zoom (fun _ _ => rfl) _).bind fun uar => (leaves_log2 _).bind fun log_size => ?_
  exact (leaves_zoom (fun _ _ => rfl) _).bind fun _ => leaves_pure _

/-- Nor does `provide_pages`. -/
theorem leaves_providePages (D : CMD.HCA δ) (page_count : ℕ) :
    Leaves MLX5_Context.event_queue_pool (providePages D page_count) := by
  have hwrite : ∀ (b : Buf) (i : ℕ) (w : Word), Leaves MLX5_Context.event_queue_pool
      (b.write i w : Exec (MLX5_Context δ) Buf) := fun b i w =>
    leaves_ite (leaves_pure _) (leaves_throw _)
  have hpage : ∀ (j : ℕ) (b : Buf), Leaves MLX5_Context.event_queue_pool
      (providePage j b : Exec (MLX5_Context δ) Buf) := fun j b => by
    unfold providePage
    refine (leaves_zoom (fun _ _ => rfl) _).bind fun mp => (leaves_zoom (fun _ _ => rfl) _).bind fun blk => ?_
    exact (hwrite b _ _).bind fun b => hwrite b _ _
  unfold providePages provideBatch
  refine leaves_get.bind fun ctx => (leaves_forRange fun i b => ?_).bind fun _ => leaves_pure _
  refine (hwrite b _ _).bind fun b => (hwrite b _ _).bind fun b => ?_
  refine (leaves_forRange hpage).bind fun b => ?_
  exact (leaves_zoom (fun _ _ => rfl) _).bind fun _ => leaves_pure b

end Leaving

/-! ## What the functions make of the pool of event queues -/

/-- `create_eq` in the parts that matter for the pool of event queues. -/
theorem createEq_eq (D : CMD.HCA δ) (size : ℕ) (type irq_num : Word) :
    createEq D size type irq_num = do
      let (eq, eqi, page_count) ← startEq size type irq_num
      let payload ← fillEq eq eqi page_count
      initEventQueue eq
      let ctx ← get
      let eq_number ← create D .CREATE_EQ (payload.toBuf ctx.uninit) (Event.EQI_SIZE + page_count * 2)
      nameQueue eqLens eq eq_number
      return eq_number := by
  unfold createEq
  simp only [prepareEq, bind_assoc, pure_bind]

/-- `create_eq` comes to its payload with a queue that may be entered in the index. -/
theorem startEq_pending (h : Sound ctx) (hguarded : Guarded ctx.event_queue_pool) (size : ℕ)
    (type irq_num : Word) :
    Ends (startEq size type irq_num) ctx
      (fun r ctx' => Pending ctx'.event_queue_pool r.1 size ∧ Q.pageCount size 64 ≤ 31)
      fun _ _ => True := by
  unfold startEq
  refine (hguarded.alloc h size).bind ?_
  intro eq ctx₁ hpending
  obtain ⟨d, hd, rfl⟩ := hpending.data
  let f : Q.ED Event.EQ_CTX → Q.ED Event.EQ_CTX := fun d => { d with q_ctx := ⟨irq_num, type⟩ }
  let ctx₂ := eqLens.set (ctx₁.event_queue_pool.setData eq (f d)) ctx₁
  have hstore : eqLens.zoom (PA.storeData (some eq) f) ctx₁ = .ok () ctx₂ :=
    Lens.zoom_of_ok (PA.storeData_ok hd f)
  -- The queue keeps its size when its context is written.
  have hpending₂ : Pending ctx₂.event_queue_pool eq d.size := hpending.setData (f d)
  obtain ⟨el, hel, hdata⟩ := PA.Heap.exists_elem_of_dataAt (PA.State.dataAt_setData_self hd)
  have hderef : eqLens.zoom (PA.derefElement (some eq)) ctx₂ = .ok el ctx₂ :=
    Lens.zoom_of_ok (PA.derefElement_ok hel)
  refine Ends.bind_of_ok hstore (Ends.bind_of_ok hderef ?_)
  have hsize : el.data.size = d.size := by rw [hdata]
  rw [hsize]
  -- A queue with too many pages is refused.
  by_cases hlarge : Q.pageCount d.size Event.PAGE_EQE_COUNT > (128 - Event.EQI_SIZE) / 2
  · rw [if_pos hlarge]
    exact ends_of_error rfl trivial
  · rw [if_neg hlarge]
    have hle : Q.pageCount d.size 64 ≤ 31 := Nat.le_of_not_lt hlarge
    -- What is left reads the index of the UAR page.
    have hskip : ∀ {α β : Type} {x : Exec (MLX5_Context δ) α} {g : α → Exec (MLX5_Context δ) β}
        {R : β → MLX5_Context δ → Prop} {ctx : MLX5_Context δ},
        Leaves MLX5_Context.event_queue_pool x → Pending ctx.event_queue_pool eq d.size →
        (∀ a ctx', Pending ctx'.event_queue_pool eq d.size → Ends (g a) ctx' R fun _ _ => True) →
        Ends (x >>= g) ctx R fun _ _ => True := fun hx hp hg =>
      Ends.bind ((hx _).mono (fun _ ctx' heq => heq ▸ hp) fun _ _ _ => trivial) hg
    refine hskip (leaves_log2 _) hpending₂ fun log_size ctx₃ hpending₃ => ?_
    refine hskip (leaves_eqUarIndex eq) hpending₃ fun uar ctx₄ hpending₄ => ?_
    exact hskip (leaves_eqType _) hpending₄ fun eq_type ctx₅ hpending₅ => ends_pure ⟨hpending₅, hle⟩

/-- Entering a queue of the pool in its index. -/
theorem Pending.name (h : Pending ctx.event_queue_pool eq size) (hle : Q.pageCount size 64 ≤ 31)
    (id : Word) :
    ∃ ctx', nameQueue eqLens eq id ctx = .ok () ctx' ∧ Guarded ctx'.event_queue_pool := by
  obtain ⟨d, hd, rfl⟩ := h.data
  let d' : Q.ED Event.EQ_CTX := { d with id := id }
  let ctx₁ := eqLens.set (ctx.event_queue_pool.setData eq d') ctx
  have hstore : eqLens.zoom (PA.storeData (some eq) fun d => { d with id := id }) ctx =
      .ok () ctx₁ := Lens.zoom_of_ok (PA.storeData_ok hd _)
  have hd' : ctx₁.event_queue_pool.heap.dataAt eq = some d' := PA.State.dataAt_setData_self hd
  have hpending : Pending ctx₁.event_queue_pool eq d.size := h.setData d'
  exact ⟨_, (bind_of_ok hstore).trans (Lens.zoom_of_ok (Q.indexQueue_ok hd')),
    hpending.index hle id.toNat⟩

/-- `create_eq` enters no other queues in the index. -/
theorem createEq_guarded (D : CMD.HCA δ) (h : Sound ctx) (hguarded : Guarded ctx.event_queue_pool)
    (size : ℕ) (type irq_num : Word) :
    Ends (createEq D size type irq_num) ctx (fun _ ctx' => Guarded ctx'.event_queue_pool)
      fun _ _ => True := by
  rw [createEq_eq]
  refine (startEq_pending h hguarded size type irq_num).bind ?_
  rintro ⟨eq, eqi, page_count⟩ ctx₁ ⟨hpending, hle⟩
  have hcommand : Leaves MLX5_Context.event_queue_pool (do
      let payload ← fillEq eq eqi page_count
      initEventQueue eq
      let ctx ← get
      create D .CREATE_EQ (payload.toBuf ctx.uninit) (Event.EQI_SIZE + page_count * 2)) := by
    refine (leaves_fillEq (leaves_readPas eq) eqi page_count).bind fun payload => ?_
    refine (leaves_initEntries (leaves_derefEq eq) fun _ _ => rfl).bind fun _ => ?_
    exact leaves_get.bind fun ctx => leaves_create (fun _ _ => rfl) D _ _ _
  have hname : Ends (do
      let eq_number ← (do
        let payload ← fillEq eq eqi page_count
        initEventQueue eq
        let ctx ← get
        create D .CREATE_EQ (payload.toBuf ctx.uninit) (Event.EQI_SIZE + page_count * 2))
      nameQueue eqLens eq eq_number
      return eq_number) ctx₁ (fun _ ctx' => Guarded ctx'.event_queue_pool) fun _ _ => True := by
    refine Ends.bind ((hcommand ctx₁).mono (fun _ _ heq => heq) fun _ _ _ => trivial) ?_
    intro eq_number ctx₂ hsame
    obtain ⟨ctx₃, hok, hguarded₃⟩ := Pending.name (hsame ▸ hpending) hle eq_number
    exact Ends.bind_of_ok hok (ends_pure hguarded₃)
  simpa only [bind_assoc] using hname

/-- A call enters only queues with few pages in the index of event queues. -/
theorem Call.guarded (c : Call) (D : CMD.HCA δ) (h : Sound ctx)
    (hguarded : Guarded ctx.event_queue_pool) :
    Ends (c.run D) ctx (fun _ ctx' => Guarded ctx'.event_queue_pool) fun _ _ => True := by
  -- Most calls do not touch event queues at all.
  have hleaves : ∀ {α : Type} {x : Exec (MLX5_Context δ) α} {ctx : MLX5_Context δ},
      Leaves MLX5_Context.event_queue_pool x → Guarded ctx.event_queue_pool →
      Ends x ctx (fun _ ctx' => Guarded ctx'.event_queue_pool) fun _ _ => True := fun hx hg =>
    (hx _).mono (fun _ ctx' heq => heq ▸ hg) fun _ _ _ => trivial
  cases c with
  | providePages page_count => exact hleaves (leaves_providePages D page_count) hguarded
  | allocEventQueue size =>
    exact (hguarded.alloc h size).bind fun eq ctx' hpending => ends_pure hpending.guarded
  | allocComplQueue size =>
    exact hleaves ((leaves_zoom (fun _ _ => rfl) _).bind fun _ => leaves_pure _) hguarded
  | allocWorkQueue size =>
    exact hleaves ((leaves_zoom (fun _ _ => rfl) _).bind fun _ => leaves_pure _) hguarded
  | createEq size type irq_num =>
    exact (createEq_guarded D h hguarded size type irq_num).bind fun _ ctx' hg => ends_pure hg
  | createCq size =>
    -- `create_cq` creates an event queue after it has taken a memory page.
    have htakes := takes_allocPage D h
    have hpage : Leaves MLX5_Context.event_queue_pool
        (memLens.zoom MEM.allocPage : Exec (MLX5_Context δ) PA.ElementPtr) :=
      leaves_zoom (fun _ _ => rfl) _
    unfold Call.run Driver.createCq
    refine Ends.bind (Ends.bind (Ends.mono (Ends.and htakes (hpage ctx)) (fun _ _ h => h)
      fun _ _ _ => trivial) ?_) fun _ ctx' hg => ends_pure hg
    rintro mp ctx₁ ⟨⟨hgrew, s, el, hctx, hel⟩, hsame⟩
    have hderef : memLens.zoom (PA.derefElement (some mp)) ctx₁ = .ok el ctx₁ := by
      subst hctx
      exact Lens.zoom_of_ok (PA.derefElement_ok hel)
    refine Ends.bind_of_ok hderef ?_
    refine (createEq_guarded D hgrew.sound (hsame ▸ hguarded) _ _ _).bind ?_
    intro eq_number ctx₃ hguarded₃
    refine hleaves ?_ hguarded₃
    exact leaves_finishCq (fun _ _ => rfl) (fun _ _ => rfl) (fun _ _ => rfl) D _ eq_number size
  | createWqc size wq_number =>
    exact hleaves ((leaves_createWqc D size wq_number).bind fun _ => leaves_pure _) hguarded

/-! ## Runs of the driver -/

/-- The contexts that the driver comes to. It starts without event queues in the index. Its functions
return, other functions leave the pool of event queues as it is, and the fields of an event queue are
written to, but never its size. -/
inductive Evolves : MLX5_Context δ → Prop
  | start {ctx : MLX5_Context δ} (h : Sound ctx)
    (hnone : ∀ k, ctx.event_queue_pool.pool.data.index k = none) : Evolves ctx
  | call {ctx ctx' : MLX5_Context δ} (h : Evolves ctx) (D : CMD.HCA δ) (c : Call)
    (hrun : c.run D ctx = .ok () ctx') : Evolves ctx'
  | other {ctx ctx' : MLX5_Context δ} (h : Evolves ctx) (hsound : Sound ctx')
    (hsame : ctx'.event_queue_pool = ctx.event_queue_pool) : Evolves ctx'
  | write {ctx : MLX5_Context δ} {d d' : Q.ED Event.EQ_CTX} (h : Evolves ctx) (eq : PA.ElementPtr)
    (hat : ctx.event_queue_pool.heap.dataAt eq = some d) (hsize : d'.size = d.size) :
    Evolves (eqLens.set (ctx.event_queue_pool.setData eq d') ctx)

/-- Writing to a queue object without changing its size. -/
theorem Guarded.setData {s : Q.State Event.EQ_CTX} {d d' : Q.ED Event.EQ_CTX} (h : Guarded s)
    (hat : s.heap.dataAt eq = some d) (hsize : d'.size = d.size) : Guarded (s.setData eq d') := by
  obtain ⟨pre, l, hrep, hfew⟩ := h
  refine ⟨pre, l, hrep.setData eq d', hfew.setData fun k hk => ?_⟩
  obtain ⟨-, d₀, hd₀, hle⟩ := hfew k eq hk
  obtain rfl : d₀ = d := Option.some.inj (hd₀.symm.trans hat)
  exact hsize.symm ▸ hle

/-- The guard of `create_eq` holds for every queue of the index, wherever the driver comes to. -/
theorem Evolves.guarded (h : Evolves ctx) : Sound ctx ∧ Guarded ctx.event_queue_pool := by
  induction h with
  | start h hnone =>
    obtain ⟨pre, l, hrep⟩ := h.event.rep
    exact ⟨h, pre, l, hrep, fun k eq hk => by rw [hnone k] at hk; cases hk⟩
  | call h D c hrun ih =>
    obtain ⟨hgrew, -⟩ := (c.takes D ih.1).1 _ _ hrun
    exact ⟨hgrew.sound, (c.guarded D ih.1 ih.2).1 _ _ hrun⟩
  | other h hsound hsame ih => exact ⟨hsound, hsame ▸ ih.2⟩
  | @write ctx d d' h eq hat hsize ih =>
    have hgrew := eqLens_pool.grew_set ih.1 (ih.1.event.grew_setData eq d')
      (by rw [PA.State.setData_pool]; rfl)
    exact ⟨hgrew.sound, ih.2.setData hat hsize⟩

end L4Rdma.Driver
