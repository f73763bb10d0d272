import L4Rdma.Driver.Guard

/-!
# What an exception leaves behind

`alloc_queue`, `create_eq` and `create_cq` in the server take one resource after the other, and can
throw after each of them. Nothing of what has been taken is given back: the queue object, the UAR page
and the memory page stay used. An exception leaves the pools as they were only when it comes before
anything has been taken, which happens only in `create_cq`, when its memory page cannot be had.
`rollsBack_iff` says exactly from which states a function does not come to a later exception.
-/

namespace L4Rdma.PA

open Lib

variable {W PD BD ED : Type} {k : Kind W PD BD ED} {s s' : State W PD BD ED}

/-- The same elements are used, with the same counter and the same data of the pool, which has the
index. -/
structure Kept (s s' : State W PD BD ED) : Prop where
  used : ∃ pre l, Rep s pre l ∧ Restored s s' l
  data : s'.pool.data = s.pool.data

/-- Nothing has been taken. -/
theorem Sound.kept (h : Sound s) : Kept s s := by
  obtain ⟨pre, l, hrep⟩ := h.rep
  exact ⟨⟨pre, l, hrep, ⟨pre, l, hrep, fun _ => Iff.rfl⟩, rfl⟩, rfl⟩

/-- The counter is that of before. -/
theorem Kept.size_eq (h : Kept s s') : s'.pool.size = s.pool.size := by
  obtain ⟨pre, l, -, hrestored⟩ := h.used
  exact hrestored.size

/-- A pool that cannot get a block is left as it was. -/
theorem allocPage_thrown_kept (h : Sound s) {what : String}
    (hres : allocPage k s = .error (.thrown what) s') : Kept s s' := by
  obtain ⟨pre, l, hrep⟩ := h.rep
  rcases allocPage_spec k hrep h.block_size_pos with ⟨-, hnull⟩ | ⟨-, e, s₁, l₁, hok, -⟩ |
    ⟨-, m, s₁, herr, hrep₁, hpool, hblock, -⟩
  · rw [hnull] at hres
    cases hres
  · rw [hok] at hres
    cases hres
  · rw [herr] at hres
    cases hres
    refine ⟨⟨pre, l, hrep, ⟨pre, l, hrep₁, fun e => ?_⟩, by rw [hpool]⟩, by rw [hpool]⟩
    by_cases hmem : e.block ∈ l
    · apply UsedAt.congr Iff.rfl (by rw [hpool])
      unfold Heap.elem
      rw [hblock _ (hrep.lt_fresh hmem)]
    · rw [usedAt_iff, usedAt_iff]
      exact ⟨fun hused => absurd hused.1 hmem, fun hused => absurd hused.1 hmem⟩

end L4Rdma.PA

namespace L4Rdma.Driver

open Lib

variable {δ Ctx α : Type} {ctx ctx' : MLX5_Context δ} {size : ℕ} {D : CMD.HCA δ}
  {l : Lens (MLX5_Context δ) (Q.State Ctx)} {p : PoolName}

/-! ## Rolling back -/

/-- An exception, as opposed to an access that C++ does not define. -/
def Thrown (err : Stop) : Prop := ∃ what, err = .thrown what

/-- The numbers of the event queues that a device creates when it executes commands. -/
def createdEqs (D : CMD.HCA δ) : δ → List CMD.Command → List Word
  | _, [] => []
  | dev, c :: cs =>
    let (dev', r) := D.exec dev c
    let rest := createdEqs D dev' cs
    if c.opcode = CMD.OPCODE.CREATE_EQ.value ∧ r.cqe_status = 0 ∧ r.cod_status = 0 then
      r.output 0 :: rest
    else rest

/-- The pools are what they were, and for each event queue that the device has created meanwhile
there is one in the index. -/
structure RolledBack (D : CMD.HCA δ) (ctx ctx' : MLX5_Context δ) : Prop where
  event : PA.Kept ctx.event_queue_pool ctx'.event_queue_pool
  compl : PA.Kept ctx.compl_queue_pool ctx'.compl_queue_pool
  uar : PA.Kept ctx.uar_page_pool ctx'.uar_page_pool
  mem : PA.Kept ctx.mem_page_pool ctx'.mem_page_pool
  indexed : ∀ cs, ctx'.hca.seen = ctx.hca.seen ++ cs → ∀ n ∈ createdEqs D ctx.hca.dev cs,
    ∃ eq, ctx'.event_queue_pool.pool.data.index n.toNat = some eq

/-- Whenever the function ends with an exception, it has been rolled back. -/
def RollsBack (D : CMD.HCA δ) (x : Exec (MLX5_Context δ) α) (ctx : MLX5_Context δ) : Prop :=
  ∀ what ctx', x ctx = .error (.thrown what) ctx' → RolledBack D ctx ctx'

/-! ## `alloc_queue` -/

/-- When `alloc_queue` throws, it has taken a queue object and a UAR page, and the kernel has not given
memory for the queue. -/
theorem allocQueue_thrown {e : Q.Env Ctx} (hq : PA.Sound e.qop) (hu : PA.Sound e.uar_page_pool)
    (size : ℕ) :
    Ends (Q.allocQueue size) e (fun _ e' => e'.qop.pool.size = e.qop.pool.size + 1)
      fun err e' => Thrown err → e.qop.pool.size < e.qop.pool.max ∧
        e.uar_page_pool.pool.size < e.uar_page_pool.pool.max ∧
        ¬ e.dma.Gives (Q.queueBytes (Q.pageCount size e.qop.pool.data.page_entry_count)) ∧
        e'.qop.pool.size = e.qop.pool.size + 1 ∧
        e'.uar_page_pool.pool.size = e.uar_page_pool.pool.size + 1 := by
  obtain ⟨pre, l, hrep⟩ := hq.rep
  obtain ⟨pre', l', hrep'⟩ := hu.rep
  have hout := Q.allocQueue_cases hrep hq.block_size_pos hrep' hu.block_size_pos size
  have hnull : ¬ Thrown (.undefined .null_deref) := fun ⟨_, h⟩ => (nomatch h)
  generalize hres : Q.allocQueue size e = res at hout
  -- Only the kernel makes it throw, when a queue object and a UAR page have been taken.
  cases hout with
  | noQueue hfull u => exact ends_of_error hres fun hthrown => absurd hthrown hnull
  | noUar hlt hfull s => exact ends_of_error hres fun hthrown => absurd hthrown hnull
  | ok hlt hlt' qo up d e₁ htook e' hfill =>
    obtain ⟨lq, htq⟩ := htook.queue
    cases hfill with
    | ok hpos n hn m dma hdma =>
      -- It returns, with one more queue object.
      apply ends_of_ok hres
      show ((e₁.qop.setData qo _).setData qo _).pool.size = _
      rw [PA.State.setData_pool, PA.State.setData_pool, htq.size]
  | stops hlt hlt' qo up d e₁ htook err e' hfill =>
    obtain ⟨lq, htq⟩ := htook.queue
    obtain ⟨lu, htu⟩ := htook.uar
    obtain ⟨hpool, hsame, -⟩ := htook.setQueue (d.claim up size)
    cases hfill with
    | noCount hzero => exact ends_of_error hres fun ⟨_, h⟩ => (nomatch h)
    | refused hpos what dma hdma pas_list =>
      rw [hpool, hsame] at hdma
      refine ends_of_error hres fun _ => ⟨hlt, hlt', fun hgives => ?_, ?_, htu.size⟩
      · -- If the kernel had given the memory, the call would have returned.
        obtain ⟨m, dma', halloc⟩ := MEM.allocDmaMem_returns_iff.mpr hgives
        rw [halloc] at hdma
        cases hdma
      · show ((e₁.qop.setData qo _).setData qo _).pool.size = _
        rw [PA.State.setData_pool, PA.State.setData_pool, htq.size]

/-- With room in both pools `alloc_queue` returns or throws. -/
theorem allocQueue_of_room {e : Q.Env Ctx} (hq : PA.Sound e.qop) (hu : PA.Sound e.uar_page_pool)
    (hpos : 0 < e.qop.pool.data.page_entry_count) (hlt : e.qop.pool.size < e.qop.pool.max)
    (hlt' : e.uar_page_pool.pool.size < e.uar_page_pool.pool.max) (size : ℕ) :
    Ends (Q.allocQueue size) e
      (fun _ _ => e.dma.Gives (Q.queueBytes (Q.pageCount size e.qop.pool.data.page_entry_count)))
      fun err _ => Thrown err := by
  obtain ⟨pre, l, hrep⟩ := hq.rep
  obtain ⟨pre', l', hrep'⟩ := hu.rep
  have hout := Q.allocQueue_cases hrep hq.block_size_pos hrep' hu.block_size_pos size
  generalize hres : Q.allocQueue size e = res at hout
  cases hout with
  | noQueue hfull u => omega
  | noUar hlt hfull s => omega
  | ok hlt hlt' qo up d e₁ htook e' hfill =>
    obtain ⟨hpool, hsame, -⟩ := htook.setQueue (d.claim up size)
    cases hfill with
    | ok hpos n hn m dma hdma =>
      rw [hsame] at hdma
      rw [hn, hpool] at hdma
      exact ends_of_ok hres (MEM.allocDmaMem_returns_iff.mp ⟨m, dma, hdma⟩)
  | stops hlt hlt' qo up d e₁ htook err e' hfill =>
    obtain ⟨hpool, -⟩ := htook.setQueue (d.claim up size)
    cases hfill with
    | noCount hzero =>
      rw [hpool] at hzero
      omega
    | refused hpos what dma hdma pas_list => exact ends_of_error hres ⟨what, rfl⟩

/-- The kernel gives the memory of a queue that is allocated from a pool. -/
def GivesQueue (l : Lens (MLX5_Context δ) (Q.State Ctx)) (ctx : MLX5_Context δ) (size : ℕ) : Prop :=
  ctx.mem_page_pool.world.Gives (Q.queueBytes (pasCount l ctx size))

/-- When `alloc_queue` throws, for the pools of the context. -/
theorem QueuePool.allocQueue_thrown (hl : QueuePool l p) (h : Sound ctx) (size : ℕ) :
    Ends ((queueEnv l).zoom (Q.allocQueue size)) ctx
      (fun _ ctx' => poolSize ctx' p = poolSize ctx p + 1)
      fun err ctx' => Thrown err → Room ctx (queueNeeds p) ∧ ¬ GivesQueue l ctx size ∧
        poolSize ctx' p = poolSize ctx p + 1 ∧ poolSize ctx' .uar = poolSize ctx .uar + 1 := by
  have hends := (Driver.allocQueue_thrown (e := (queueEnv l).view ctx) (hl.sound ctx h) h.uar size).zoom
  have hview : ∀ e, (l.view ((queueEnv l).set e ctx)) = e.qop ∧
      ((queueEnv l).set e ctx).uar_page_pool = e.uar_page_pool := fun e =>
    ⟨congrArg Q.Env.qop (hl.view_set e ctx), congrArg Q.Env.uar_page_pool (hl.view_set e ctx)⟩
  refine hends.mono ?_ ?_
  · rintro qo ctx' ⟨e, rfl, hsize⟩
    rw [hl.size, hl.size, (hview e).1]
    exact hsize
  · rintro err ctx' ⟨e, rfl, hthrown⟩ hex
    obtain ⟨hlt, hlt', hnot, hsize, hsize'⟩ := hthrown hex
    refine ⟨fun q => ?_, hnot, ?_, ?_⟩
    · unfold queueNeeds
      split_ifs with hq hu
      · rw [hq, hl.size, hl.max]
        exact hlt
      · rw [hu]
        exact hlt'
      · exact h.size_le q
    · rw [hl.size, hl.size, (hview e).1]
      exact hsize
    · show ((queueEnv l).set e ctx).uar_page_pool.pool.size = _
      rw [(hview e).2]
      exact hsize'

/-- With room in its pools, it returns when the kernel gives the memory, and throws otherwise. -/
theorem QueuePool.allocQueue_of_room (hl : QueuePool l p) (hp : p ≠ .uar) (h : Sound ctx)
    (hroom : Room ctx (queueNeeds p)) (size : ℕ) :
    Ends ((queueEnv l).zoom (Q.allocQueue size)) ctx (fun _ _ => GivesQueue l ctx size)
      fun err _ => Thrown err := by
  have hqueue : (l.view ctx).pool.size < (l.view ctx).pool.max := by
    have hlt := hroom p
    rw [hl.size, hl.max, queueNeeds, if_pos rfl] at hlt
    exact hlt
  have huar : ctx.uar_page_pool.pool.size < ctx.uar_page_pool.pool.max := by
    have hlt := hroom .uar
    rw [queueNeeds, if_neg (Ne.symm hp), if_pos rfl] at hlt
    exact hlt
  have hends := (Driver.allocQueue_of_room (e := (queueEnv l).view ctx) (hl.sound ctx h) h.uar
    (hl.page_entry_count ctx h) hqueue huar size).zoom
  apply hends.mono
  · intro _ _ hres
    obtain ⟨-, -, hgives⟩ := hres
    exact hgives
  · intro _ _ hres
    obtain ⟨-, -, hthrown⟩ := hres
    exact hthrown

/-! ## `create_eq` -/

section Counting

/-- The number of event queues. -/
def eventCount (ctx : MLX5_Context δ) : ℕ := ctx.event_queue_pool.pool.size

/-- What leaves the event queues leaves their number. -/
theorem leaves_count {x : Exec (MLX5_Context δ) α}
    (h : Leaves MLX5_Context.event_queue_pool x) : Leaves eventCount x :=
  h.comp fun s => s.pool.size

/-- So does what leaves the pool's own fields. -/
theorem leaves_countZoom {x : Exec (Q.State Event.EQ_CTX) α} (h : Leaves PA.State.pool x) :
    Leaves eventCount (eqLens.zoom x : Exec (MLX5_Context δ) α) :=
  (h.comp PA.Pool.size).zoom (fun _ => rfl) fun _ _ => rfl

/-- Entering a queue in the index does not change their number. -/
theorem leaves_nameQueue (eq : PA.ElementPtr) (id : Word) :
    Leaves eventCount (nameQueue eqLens eq id : Exec (MLX5_Context δ) Unit) := by
  have hindex : Leaves (fun s : Q.State Event.EQ_CTX => s.pool.size) (Q.indexQueue eq) := by
    unfold Q.indexQueue
    refine ((PA.leaves_derefElement _).comp fun s => s.pool.size).bind fun el => ?_
    exact fun s => ends_of_ok (modify_apply _ s) rfl
  refine (leaves_countZoom (PA.leaves_storeData _ _)).bind fun _ => ?_
  exact hindex.zoom (fun _ => rfl) fun _ _ => rfl

end Counting

/-- `create_eq` comes to its command: the logarithm and the set of event types can be computed, and the
entries are in the memory of the queue. -/
structure ReachesCommand (ctx : MLX5_Context δ) (size : ℕ) (type : Word) : Prop where
  size_pos : 0 < size
  type_lt : type.toNat < 64
  memory : (size + 0xffffffffffffffff) % 2 ^ 64 * Event.EQE_BYTES ≤
    ctx.mem_page_pool.world.services.superpages (Q.queueBytes (pasCount eqLens ctx size))

/-- How `create_eq` goes on after the allocation of its queue up to its payload: it refuses a large
queue, or comes to what C++ does not define, or to its payload. -/
theorem startEq_cases (h : Sound ctx) {eq : PA.ElementPtr}
    (halloc : (queueEnv eqLens).zoom (Q.allocQueue size) ctx = .ok eq ctx') (type irq_num : Word) :
    (31 < Q.pageCount size 64 ∧ ∃ ctx₂, startEq size type irq_num ctx =
      .error (.thrown "Event Queue too large!") ctx₂) ∨
    (Q.pageCount size 64 ≤ 31 ∧ ¬ (0 < size ∧ type.toNat < 64) ∧ ∃ ub ctx₂,
      startEq size type irq_num ctx = .error (.undefined ub) ctx₂) ∨
    (Q.pageCount size 64 ≤ 31 ∧ 0 < size ∧ type.toNat < 64 ∧ ∃ r ctx₂,
      startEq size type irq_num ctx = .ok r ctx₂) := by
  obtain ⟨hgrew, e, hctx, hallocated⟩ :=
    (eqLens_pool.takes_allocQueue (by decide) (still δ) h size).1 _ _ halloc
  obtain ⟨d, up, uar, hat, hsize, hup, huar⟩ : ∃ d up uar,
      ((queueEnv eqLens).view ctx').queueAt eq = some d ∧ d.size = size ∧ d.uarp = some up ∧
        ctx'.uar_page_pool.heap.dataAt up = some uar := by
    obtain ⟨d, up, m, uar, hat, huar, -⟩ := hallocated.data
    rw [hctx, eqLens_pool.view_set]
    exact ⟨_, up, uar, hat, rfl, rfl, huar⟩
  obtain ⟨ctx₂, -, -, hcases⟩ := finishEq_cases hgrew.sound hat hup huar type irq_num
  have hrun : startEq size type irq_num ctx = finishEq eq type irq_num ctx' := bind_of_ok halloc
  rw [hsize, ← hrun] at hcases
  rcases hcases with ⟨hlarge, hres⟩ | ⟨hle, hnot, ub, -, hres⟩ | ⟨hle, hpos, hlt, eqi, -, hres⟩
  · exact .inl ⟨hlarge, ctx₂, hres⟩
  · exact .inr (.inl ⟨hle, hnot, ub, ctx₂, hres⟩)
  · exact .inr (.inr ⟨hle, hpos, hlt, _, ctx₂, hres⟩)

/-- How it goes on up to its command. -/
theorem prepareEq_cases (h : Sound ctx) {eq : PA.ElementPtr}
    (halloc : (queueEnv eqLens).zoom (Q.allocQueue size) ctx = .ok eq ctx') (type irq_num : Word) :
    (31 < Q.pageCount size 64 ∧ ∃ ctx₂, prepareEq size type irq_num ctx =
      .error (.thrown "Event Queue too large!") ctx₂) ∨
    (Q.pageCount size 64 ≤ 31 ∧ ¬ ReachesCommand ctx size type ∧ ∃ ub ctx₂,
      prepareEq size type irq_num ctx = .error (.undefined ub) ctx₂) ∨
    (Q.pageCount size 64 ≤ 31 ∧ ReachesCommand ctx size type ∧ ∃ r ctx₂,
      prepareEq size type irq_num ctx = .ok r ctx₂) := by
  unfold prepareEq
  rcases startEq_cases h halloc type irq_num with ⟨hlarge, ctx₂, hres⟩ | ⟨hle, hnot, ub, ctx₂, hres⟩ |
    ⟨hle, hpos, hlt, ⟨eq', eqi, page_count⟩, ctx₂, hres⟩
  · exact .inl ⟨hlarge, ctx₂, bind_of_error hres⟩
  · exact .inr (.inl ⟨hle, fun h => hnot ⟨h.size_pos, h.type_lt⟩, ub, ctx₂, bind_of_error hres⟩)
  -- It has come to the payload, which has room for the addresses of at most 31 pages.
  obtain ⟨-, hstarted, -, hfew⟩ := (takes_startEq (still δ) h size type irq_num).1 _ _ hres
  obtain ⟨d, up, uar, hat, hsize, -, -, -, -, -, mapped, hmapped⟩ := hstarted.queue
  dsimp only at hat hmapped hfew
  have hfits : Event.EQI_SIZE + page_count ≤ 128 := by
    unfold Event.EQI_SIZE
    omega
  have hfill := fillEq_ok hat eqi hfits
  let ctx₃ := noteOverrun ctx₂ (decide (d.pas_list.size < page_count))
  have hat₃ : ((queueEnv eqLens).view ctx₃).queueAt eq' = some d := hat
  -- The entries are in the memory that has been mapped for the pages that `alloc_queue` counts.
  have hbytes : memoryBytes ctx₃.mem_page_pool.world d.dma_mem =
      ctx.mem_page_pool.world.services.superpages (Q.queueBytes (pasCount eqLens ctx size)) :=
    memoryBytes_of_mapped hmapped
  have hcases := initEventQueue_cases hat₃
  rw [hbytes, hsize] at hcases
  rcases hcases with ⟨hmemory, hinit⟩ | ⟨hover, hinit⟩
  · let r := (eq', eqPayload eqi.words d.pas_list page_count, Event.EQI_SIZE + page_count * 2)
    let ctx₄ := withMarks ctx₃ eq' (Event.markCount size)
    refine .inr (.inr ⟨hle, ⟨hpos, hlt, hmemory⟩, r, ctx₄, ?_⟩)
    exact (bind_of_ok hres).trans ((bind_of_ok hfill).trans (bind_of_ok hinit))
  · -- The loop over the entries runs out of this memory.
    refine .inr (.inl ⟨hle, fun h => hover h.memory, .out_of_bounds, ctx₃, ?_⟩)
    exact (bind_of_ok hres).trans ((bind_of_ok hfill).trans (bind_of_error hinit))

/-- What makes `create_eq` throw when there is room for its queue. -/
def EqFails (ctx : MLX5_Context δ) (size : ℕ) (type : Word) : Prop :=
  ¬ GivesQueue eqLens ctx size ∨ 31 < Q.pageCount size 64 ∨ ReachesCommand ctx size type

/-- When `create_eq` throws, there is one more event queue. -/
theorem createEq_count (D : CMD.HCA δ) (h : Sound ctx) (size : ℕ) (type irq_num : Word) :
    Ends (createEq D size type irq_num) ctx (fun _ _ => True) fun err ctx' => Thrown err →
      Room ctx (queueNeeds .event) ∧ eventCount ctx' = eventCount ctx + 1 := by
  have halloc := (eqLens_pool.allocQueue_thrown h size).and
    (eqLens_pool.takes_allocQueue (by decide) D h size)
  have hstart : Ends (startEq size type irq_num) ctx
      (fun _ ctx' => Room ctx (queueNeeds .event) ∧ eventCount ctx' = eventCount ctx + 1)
      fun err ctx' => Thrown err →
        Room ctx (queueNeeds .event) ∧ eventCount ctx' = eventCount ctx + 1 := by
    unfold startEq
    refine Ends.bind (halloc.mono (fun _ _ h => h) fun err ctx' hstop hthrown => ?_) ?_
    · obtain ⟨hroom, -, hcount, -⟩ := hstop.1 hthrown
      exact ⟨hroom, hcount⟩
    rintro eq ctx₁ ⟨hcount, hgrew, -⟩
    -- What is left changes the queue, but not the number of queues.
    suffices hleaves : Leaves eventCount _ from
      (hleaves ctx₁).mono (fun _ _ hsame => ⟨hgrew.room, hsame.trans hcount⟩)
        fun _ _ hsame _ => ⟨hgrew.room, hsame.trans hcount⟩
    refine (leaves_countZoom (PA.leaves_storeData _ _)).bind fun _ => ?_
    refine (leaves_count (leaves_derefEq eq)).bind fun el => ?_
    refine leaves_ite (leaves_throw _) ((leaves_log2 _).bind fun log_size => ?_)
    refine (leaves_count (leaves_eqUarIndex eq)).bind fun uar => ?_
    exact (leaves_eqType _).bind fun mask => leaves_pure _
  -- From there to the command the pool of event queues stays the same.
  rw [createEq_eq]
  refine hstart.bind ?_
  rintro ⟨eq, eqi, page_count⟩ ctx₁ ⟨hroom, hcount⟩
  suffices hleaves : Leaves eventCount _ from
    (hleaves ctx₁).mono (fun _ _ _ => trivial) fun _ _ hsame _ => ⟨hroom, hsame.trans hcount⟩
  refine (leaves_count (leaves_fillEq (leaves_readPas eq) eqi page_count)).bind fun payload => ?_
  refine (leaves_count (leaves_initEntries (leaves_derefEq eq) fun _ _ => rfl)).bind fun _ => ?_
  -- The command may be rejected, which leaves the count all the same.
  refine leaves_get.bind fun ctx => (leaves_create (fun _ _ => rfl) D _ _ _).bind fun id => ?_
  exact (leaves_nameQueue eq id).bind fun _ => leaves_pure id

/-- It throws when the kernel does not give the memory, when the queue is large, and at its command. -/
theorem createEq_fails (D : CMD.HCA δ) (h : Sound ctx) (size : ℕ) (type irq_num : Word) :
    Ends (createEq D size type irq_num) ctx (fun _ _ => True)
      fun err _ => Thrown err → EqFails ctx size type := by
  rcases (eqLens_pool.allocQueue_thrown h size).cases with
    ⟨eq, ctx₁, halloc, -⟩ | ⟨err, ctx₁, halloc, hthrown⟩
  · rcases prepareEq_cases h halloc type irq_num with ⟨hlarge, -⟩ | ⟨-, -, ub, ctx₂, hres⟩ |
      ⟨-, hreaches, -⟩
    · exact ⟨fun _ _ _ => trivial, fun _ _ _ _ => .inr (.inl hlarge)⟩
    · have hcreate : createEq D size type irq_num ctx = .error (.undefined ub) ctx₂ :=
        bind_of_error hres
      exact ends_of_error hcreate fun ⟨_, hthrown⟩ => (nomatch hthrown)
    · exact ⟨fun _ _ _ => trivial, fun _ _ _ _ => .inr (.inr hreaches)⟩
  · have hcreate : createEq D size type irq_num ctx = .error err ctx₁ :=
      bind_of_error (bind_of_error (bind_of_error halloc))
    apply ends_of_error hcreate
    intro hex
    obtain ⟨-, hnot, -⟩ := hthrown hex
    exact .inl hnot

/-- A device that executes no command. -/
def rejecting (δ : Type) : CMD.HCA δ where
  exec dev _ := (dev, ⟨1, 0, fun _ => 0⟩)

/-- On this device `create_eq` does throw. -/
theorem createEq_rejected (h : Sound ctx) (hroom : Room ctx (queueNeeds .event)) {type : Word}
    (hfails : EqFails ctx size type) (irq_num : Word) :
    ∃ what ctx', createEq (rejecting δ) size type irq_num ctx = .error (.thrown what) ctx' := by
  rcases (eqLens_pool.allocQueue_of_room (by decide) h hroom size).cases with
    ⟨eq, ctx₁, halloc, hgives⟩ | ⟨err, ctx₁, halloc, what, rfl⟩
  swap
  · exact ⟨what, ctx₁, bind_of_error (bind_of_error (bind_of_error halloc))⟩
  rcases prepareEq_cases h halloc type irq_num with ⟨-, ctx₂, hres⟩ | ⟨hle, hnot, -⟩ |
    ⟨-, -, ⟨eq', payload, payload_length⟩, ctx₂, hres⟩
  · exact ⟨_, ctx₂, bind_of_error hres⟩
  · rcases hfails with hrefused | hlarge | hreaches
    · exact absurd hgives hrefused
    · omega
    · exact absurd hreaches hnot
  · obtain ⟨hgrew, hprep, -, hlen⟩ := (takes_prepareEq (still δ) h size type irq_num).1 _ _ hres
    have hfits := fits_of_le hprep.payload_size hlen ctx₂.uninit
    obtain ⟨w, hissue⟩ := CMD.issue_rejected (rejecting δ) hgrew.sound.idle hfits .CREATE_EQ 0x0 rfl
    have hcreate : create (rejecting δ) .CREATE_EQ (payload.toBuf ctx₂.uninit) payload_length ctx₂ =
        .error (.thrown "CQE Error") (hcaLens.set w ctx₂) :=
      bind_of_error (Lens.zoom_of_error hissue)
    refine ⟨"CQE Error", hcaLens.set w ctx₂, ?_⟩
    unfold createEq
    exact (bind_of_ok hres).trans ((get_bind _ _).trans (bind_of_error hcreate))

/-! ## `create_cq` -/

/-- The number of memory pages. -/
def pageTotal (ctx : MLX5_Context δ) : ℕ := ctx.mem_page_pool.pool.size

/-- `create_eq` takes no memory pages. -/
theorem leaves_createEq (D : CMD.HCA δ) (size : ℕ) (type irq_num : Word) :
    Leaves pageTotal (createEq D size type irq_num) := by
  have hqueue : ∀ {α : Type} (x : Exec (Q.State Event.EQ_CTX) α),
      Leaves pageTotal (eqLens.zoom x : Exec (MLX5_Context δ) α) := leaves_zoom fun _ _ => rfl
  have henv : ∀ {α : Type} (x : Exec (Q.Env Event.EQ_CTX) α),
      Leaves pageTotal ((queueEnv eqLens).zoom x : Exec (MLX5_Context δ) α) :=
    leaves_zoom fun _ _ => rfl
  have hstart : Leaves pageTotal
      (startEq size type irq_num : Exec (MLX5_Context δ) (PA.ElementPtr × Event.EQI × ℕ)) := by
    unfold startEq
    refine (henv _).bind fun eq => (hqueue _).bind fun _ => (hqueue _).bind fun el => ?_
    refine leaves_ite (leaves_throw _) ((leaves_log2 _).bind fun log_size => ?_)
    exact (henv _).bind fun uar => (leaves_eqType _).bind fun mask => leaves_pure _
  rw [createEq_eq]
  unfold nameQueue
  refine hstart.bind fun r => (leaves_fillEq (fun _ => henv _) _ _).bind fun payload => ?_
  refine (leaves_initEntries (hqueue _) fun _ _ => rfl).bind fun _ => leaves_get.bind fun ctx => ?_
  refine (leaves_create (fun _ _ => rfl) D _ _ _).bind fun id => ?_
  exact ((hqueue _).bind fun _ => hqueue _).bind fun _ => leaves_pure id

/-- A memory page that cannot be had leaves everything as it was. -/
theorem allocPage_rolledBack (D : CMD.HCA δ) (h : Sound ctx) {what : String}
    (hres : memLens.zoom MEM.allocPage ctx = .error (.thrown what) ctx') : RolledBack D ctx ctx' := by
  have hends : Ends MEM.allocPage (memLens.view ctx) (fun _ _ => True)
      fun err s => MEM.allocPage ctx.mem_page_pool = .error err s :=
    ⟨fun _ _ _ => trivial, fun _ _ hpage => hpage⟩
  obtain ⟨s, rfl, hpage⟩ := hends.zoom.2 _ _ hres
  -- Only the pool can throw, when a block cannot be had, and then it keeps what it has.
  have hkept : PA.Kept ctx.mem_page_pool s := by
    unfold MEM.allocPage at hpage
    rcases bind_eq_error_iff.mp hpage with hpool | ⟨mp, s₁, hpool, hrest⟩
    · exact PA.allocPage_thrown_kept h.mem hpool
    · -- What comes after it does not throw.
      cases mp with
      | none => cases hrest
      | some mp =>
        rcases bind_eq_error_iff.mp hrest with hderef | ⟨blk, s₂, -, hmodify⟩
        · cases hblk : s₁.heap.block mp.block with
          | none =>
            rw [PA.deref_of_destroyed hblk] at hderef
            cases hderef
          | some blk =>
            rw [PA.deref_of_block hblk] at hderef
            cases hderef
        · cases hmodify
  exact {
    event := h.event.kept
    compl := h.compl.kept
    uar := h.uar.kept
    mem := hkept
    indexed := fun cs hseen n hn => by
      -- No command has been given, so no event queue is indexed either.
      have hnil : cs = [] := by
        have hsame : ctx.hca.seen = ctx.hca.seen ++ cs := hseen
        exact List.self_eq_append_right.mp hsame
      rw [hnil] at hn
      cases hn }

/-- What `create_cq` takes before its completion queue. -/
def doorbellNeeds : PoolName → ℕ := fun p => memNeeds 1 p + queueNeeds .event p

/-- When `create_cq` throws, it has been rolled back, or there is one more memory page. -/
theorem createCq_thrown (D : CMD.HCA δ) (h : Sound ctx) (size : ℕ) :
    Ends (createCq D size) ctx (fun _ _ => True) fun err ctx' => Thrown err →
      RolledBack D ctx ctx' ∨ Room ctx doorbellNeeds ∧ MEM.HasPage ctx.mem_page_pool ∧
        pageTotal ctx' = pageTotal ctx + 1 := by
  unfold createCq
  refine Ends.bind (Q := fun mp ctx₁ => Grew ctx ctx₁ (memNeeds 1) ∧
    (∃ s el, ctx₁ = memLens.set s ctx ∧ s.heap.elem mp = some el) ∧ MEM.HasPage ctx.mem_page_pool)
    ⟨fun mp ctx₁ halloc => ?_, ?_⟩ ?_
  · obtain ⟨hgrew, hset⟩ := (takes_allocPage D h).1 _ _ halloc
    have hlt : ctx.mem_page_pool.pool.size + 1 ≤ ctx.mem_page_pool.pool.max := hgrew.room .mem
    obtain ⟨-, -, hpage⟩ := (MEM.allocPage_ends h.mem hlt).zoom.1 _ _ halloc
    exact ⟨hgrew, hset, hpage⟩
  · -- The first thing that it takes cannot be had.
    rintro err ctx' hres ⟨what, rfl⟩
    exact .inl (allocPage_rolledBack D h hres)
  rintro mp ctx₁ ⟨hgrew, ⟨s, el, hctx, hel⟩, hpage⟩
  -- From here on there is one more memory page, and nothing gives it back.
  have hcount : pageTotal ctx₁ = pageTotal ctx + 1 := hgrew.size .mem
  have hderef : memLens.zoom (PA.derefElement (some mp)) ctx₁ = .ok el ctx₁ := by
    subst hctx
    exact Lens.zoom_of_ok (PA.derefElement_ok hel)
  refine Ends.bind_of_ok hderef ?_
  have heq := ((createEq_count D hgrew.sound 4 Event.EVENT_TYPE_COMPLETION_EVENT 0).and
    (takes_createEq D hgrew.sound 4 Event.EVENT_TYPE_COMPLETION_EVENT 0)).and
      (leaves_createEq D 4 Event.EVENT_TYPE_COMPLETION_EVENT 0 ctx₁)
  refine Ends.bind (heq.mono (fun _ _ h => h) fun err ctx' hstop hthrown => .inr ?_) ?_
  · obtain ⟨⟨hevent, -⟩, hsame⟩ := hstop
    exact ⟨hgrew.room_iff.mp (hevent hthrown).1, hpage, hsame.trans hcount⟩
  rintro eq_number ctx₂ ⟨⟨-, hgrew₂, -⟩, hsame⟩
  have hroom : Room ctx doorbellNeeds := (hgrew.trans hgrew₂).room
  have hfinish : Leaves pageTotal _ :=
    leaves_finishCq (fun _ _ => rfl) (fun _ _ => rfl) (fun _ _ => rfl) D el.data.phys eq_number size
  exact (hfinish ctx₂).mono (fun _ _ _ => trivial) fun _ _ hsame₂ _ =>
    .inr ⟨hroom, hpage, hsame₂.trans (hsame.trans hcount)⟩

/-- The event queue of `create_cq` comes to its command. -/
theorem reachesCommand_four (h : Sound ctx)
    (hshift : ctx.mem_page_pool.world.services.superpageShift ≤ 62) :
    ReachesCommand ctx 4 Event.EVENT_TYPE_COMPLETION_EVENT where
  size_pos := by decide
  type_lt := by decide
  memory := by
    have hcount : 0 < pasCount eqLens ctx 4 ∧ pasCount eqLens ctx 4 ≤ 4 :=
      Q.pageCount_bounds (by decide) (by decide) h.event_count
    have hbytes : Q.queueBytes (pasCount eqLens ctx 4) = 4096 * pasCount eqLens ctx 4 := by
      unfold Q.queueBytes HCA_PAGE_SIZE
      exact Nat.mod_eq_of_lt (by omega)
    have hsuper : Q.queueBytes (pasCount eqLens ctx 4) ≤
        ctx.mem_page_pool.world.services.superpages (Q.queueBytes (pasCount eqLens ctx 4)) :=
      MEM.le_superpages (by omega) hshift
    unfold Event.EQE_BYTES
    omega

/-- On a device that executes no command `create_cq` throws when it gets a memory page. -/
theorem createCq_rejected (h : Sound ctx)
    (hshift : ctx.mem_page_pool.world.services.superpageShift ≤ 62) (size : ℕ)
    (hroom : Room ctx doorbellNeeds) (hpage : MEM.HasPage ctx.mem_page_pool) :
    ∃ what ctx', createCq (rejecting δ) size ctx = .error (.thrown what) ctx' ∧
      pageTotal ctx' = pageTotal ctx + 1 := by
  have hneeds : Room ctx (memNeeds 1) := hroom.mono fun p => Nat.le_add_right _ _
  have hlt : ctx.mem_page_pool.pool.size < ctx.mem_page_pool.pool.max := hneeds .mem
  have halloc : ∃ mp ctx₁, memLens.zoom MEM.allocPage ctx = .ok mp ctx₁ := by
    rcases (MEM.allocPage_ends h.mem hlt).cases with ⟨mp, s, hres, -⟩ | ⟨err, s, -, hnot⟩
    · exact ⟨mp, memLens.set s ctx, Lens.zoom_of_ok hres⟩
    · exact absurd hpage hnot
  obtain ⟨mp, ctx₁, halloc⟩ := halloc
  obtain ⟨hgrew, s, el, hctx, hel⟩ := (takes_allocPage (still δ) h).1 _ _ halloc
  have hderef : memLens.zoom (PA.derefElement (some mp)) ctx₁ = .ok el ctx₁ := by
    subst hctx
    exact Lens.zoom_of_ok (PA.derefElement_ok hel)
  have hreaches := reachesCommand_four hgrew.sound (hgrew.services ▸ hshift)
  obtain ⟨what, ctx₂, heq⟩ := createEq_rejected hgrew.sound (hgrew.room_iff.mpr hroom)
    (.inr (.inr hreaches)) 0
  have hcount : pageTotal ctx₂ = pageTotal ctx₁ := (leaves_createEq _ _ _ _ ctx₁).2 _ _ heq
  refine ⟨what, ctx₂, ?_, hcount.trans (hgrew.size .mem)⟩
  unfold createCq
  exact (bind_of_ok halloc).trans ((bind_of_ok hderef).trans (bind_of_error heq))

/-! ## What an exception leaves -/

/-- An exception of `alloc_queue` leaves a UAR page that has been taken. -/
theorem QueuePool.not_rolledBack (hl : QueuePool l p) (h : Sound ctx) {what : String}
    (hres : (queueEnv l).zoom (Q.allocQueue size) ctx = .error (.thrown what) ctx') :
    ¬ RolledBack D ctx ctx' := by
  intro hback
  obtain ⟨-, -, -, hcount⟩ := (hl.allocQueue_thrown h size).2 _ _ hres ⟨what, rfl⟩
  have hsame : poolSize ctx' .uar = poolSize ctx .uar := hback.uar.size_eq
  omega

/-- An exception of `create_eq` leaves an event queue. -/
theorem createEq_not_rolledBack (h : Sound ctx) {type irq_num : Word} {what : String}
    (hres : createEq D size type irq_num ctx = .error (.thrown what) ctx') :
    ¬ RolledBack D ctx ctx' := by
  intro hback
  obtain ⟨-, hcount⟩ := (createEq_count D h size type irq_num).2 _ _ hres ⟨what, rfl⟩
  have hsame : eventCount ctx' = eventCount ctx := hback.event.size_eq
  omega

/-- From a state of the pools, whatever the device does: whenever `alloc_queue`, `create_eq` or
`create_cq` ends with an exception it has been rolled back, exactly when it comes to no exception after
the first things that it takes. -/
theorem rollsBack_iff (h : Sound ctx)
    (hshift : ctx.mem_page_pool.world.services.superpageShift ≤ 62) (size : ℕ) :
    (∀ (Ctx : Type) (l : Lens (MLX5_Context δ) (Q.State Ctx)) (p : PoolName), QueuePool l p → p ≠ .uar →
      ∀ D : CMD.HCA δ, RollsBack D ((queueEnv l).zoom (Q.allocQueue size)) ctx ↔
        ¬ (Room ctx (queueNeeds p) ∧ ¬ GivesQueue l ctx size)) ∧
    (∀ type irq_num, (∀ D : CMD.HCA δ, RollsBack D (createEq D size type irq_num) ctx) ↔
      ¬ (Room ctx (queueNeeds .event) ∧ EqFails ctx size type)) ∧
    ((∀ D : CMD.HCA δ, RollsBack D (createCq D size) ctx) ↔
      ¬ (Room ctx doorbellNeeds ∧ MEM.HasPage ctx.mem_page_pool)) := by
  refine ⟨fun Ctx l p hl hp D => ⟨fun hback hfails => ?_, fun hnot what ctx' hres => ?_⟩,
    fun type irq_num => ⟨fun hback hfails => ?_, fun hnot D what ctx' hres => ?_⟩,
    fun hback hfails => ?_, fun hnot D what ctx' hres => ?_⟩
  · -- `alloc_queue` keeps the queue object and the UAR page when the kernel refuses memory.
    obtain ⟨hroom, hrefused⟩ := hfails
    rcases (hl.allocQueue_of_room hp h hroom size).cases with ⟨-, -, -, hgives⟩ |
      ⟨err, ctx', hres, what, rfl⟩
    · exact hrefused hgives
    · exact hl.not_rolledBack h hres (hback what ctx' hres)
  · obtain ⟨hroom, hrefused, -⟩ := (hl.allocQueue_thrown h size).2 _ _ hres ⟨what, rfl⟩
    exact absurd ⟨hroom, hrefused⟩ hnot
  · -- `create_eq` keeps the queue, here with a device that rejects its command.
    obtain ⟨what, ctx', hres⟩ := createEq_rejected h hfails.1 hfails.2 irq_num
    exact createEq_not_rolledBack h hres (hback _ what ctx' hres)
  · obtain ⟨hroom, -⟩ := (createEq_count D h size type irq_num).2 _ _ hres ⟨what, rfl⟩
    have hfails := (createEq_fails D h size type irq_num).2 _ _ hres ⟨what, rfl⟩
    exact absurd ⟨hroom, hfails⟩ hnot
  · -- `create_cq` keeps the memory page, here with such a device.
    obtain ⟨what, ctx', hres, hcount⟩ := createCq_rejected h hshift size hfails.1 hfails.2
    have hsame : pageTotal ctx' = pageTotal ctx := (hback _ what ctx' hres).mem.size_eq
    omega
  · rcases (createCq_thrown D h size).2 _ _ hres ⟨what, rfl⟩ with hback | ⟨hroom, hpage, -⟩
    · exact hback
    · exact absurd ⟨hroom, hpage⟩ hnot

/-- At the start, for queues of 64 entries. -/
theorem startContext_rollsBack_iff :
    (∀ type irq_num, (∀ D : CMD.HCA Unit, RollsBack D (createEq D 64 type irq_num) startContext) ↔
      ¬ (Room startContext (queueNeeds .event) ∧ EqFails startContext 64 type)) ∧
    ((∀ D : CMD.HCA Unit, RollsBack D (createCq D 64) startContext) ↔
      ¬ (Room startContext doorbellNeeds ∧ MEM.HasPage startContext.mem_page_pool)) :=
  (rollsBack_iff startContext_sound (by decide) 64).2

/-- An event queue of 32 pages at the start, on a device and a kernel that do their part. -/
theorem not_rollsBack : ¬ RollsBack (still Unit) (createEq (still Unit) (64 * 32) 0 0) startContext := by
  intro hback
  have hroom : Room startContext (queueNeeds .event) :=
    startContext_room fun p => by cases p <;> decide
  obtain ⟨eq, ctx₁, halloc, -⟩ := (eqLens_pool.takes_allocQueue (by decide) (still Unit)
    startContext_sound (64 * 32)).returns (granted_still _) trivial hroom
  have hlarge : 31 < Q.pageCount (64 * 32) 64 := by decide
  have hres : ∃ ctx₂, createEq (still Unit) (64 * 32) 0 0 startContext =
      .error (.thrown "Event Queue too large!") ctx₂ := by
    rcases prepareEq_cases startContext_sound halloc 0 0 with ⟨-, ctx₂, hres⟩ | ⟨hle, -⟩ | ⟨hle, -⟩
    · exact ⟨ctx₂, bind_of_error hres⟩
    · omega
    · omega
  obtain ⟨ctx₂, hres⟩ := hres
  exact createEq_not_rolledBack startContext_sound hres (hback _ _ hres)

end L4Rdma.Driver
