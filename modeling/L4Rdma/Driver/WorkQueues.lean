import L4Rdma.Driver.Exhaustion
import L4Rdma.Driver.Overrun
import L4Rdma.Driver.Setup
import L4Rdma.Lib.Run

/-!
# Creating and destroying work queues

`WQ::create_wqc` and `WQ::destroy_wqc` in `server/src/wq.cc`. A work queue takes a queue object, a UAR
page, a memory page and a protection domain. `destroy_wqc` gives only the protection domain back, and
leaves the queue in the index. So there are as many of each as there are work queues until the first
work queue is destroyed, and no longer (`balanced_iff_noDestroy`).
-/

namespace L4Rdma.Driver

open Lib Device

variable {δ : Type} {ctx ctx' : MLX5_Context δ} {D : CMD.HCA δ} {size : ℕ} {n : Word}

/-! ## Destroying work queues -/

/-- `DEALLOC_PD_OUTPUT_LENGTH`. -/
abbrev DEALLOC_PD_OUTPUT_LENGTH : ℕ := 0

/-- `dealloc_pd`. -/
def deallocPd (D : CMD.HCA δ) (pd : Word) : Exec (MLX5_Context δ) Unit := do
  let _ ← hcaLens.zoom
    (CMD.issue D .DEALLOC_PD 0x0 (Buf.ofList [pd, 0]) 2 DEALLOC_PD_OUTPUT_LENGTH)
  return ()

/-- `destroy_wqc`. -/
def destroyWqc (D : CMD.HCA δ) (wq_number : Word) : Exec (MLX5_Context δ) Unit := do
  match ← wqLens.zoom (Q.getQueue wq_number) with
  | none => throw (.undefined .null_deref)
  | some wq =>
    let el ← wqLens.zoom (PA.derefElement (some wq))
    deallocPd D el.data.q_ctx.wqc.pd

/-! ## What the calls do to the index and to the device -/

/-- The index of the work queues. -/
def wqIndex (ctx : MLX5_Context δ) : ℕ → Option PA.ElementPtr :=
  ctx.work_queue_pool.pool.data.index

/-- The index of the work queues and what the device has seen. -/
def wqView (ctx : MLX5_Context δ) : (ℕ → Option PA.ElementPtr) × CMD.World δ :=
  (wqIndex ctx, ctx.hca)

/-- What `create_wqc` leaves when it returns. -/
structure Created (ctx ctx' : MLX5_Context δ) (n : Word) : Prop where
  grew : Grew ctx ctx' wqNeeds
  index : ∃ wq el, wqIndex ctx' = Function.update (wqIndex ctx) n.toNat (some wq) ∧
    ctx'.work_queue_pool.heap.elem wq = some el
  seen : ∃ c, c.opcode = CMD.OPCODE.ALLOC_PD.value ∧ ctx'.hca.seen = ctx.hca.seen ++ [c]

/-- Work on the pool of work queues that leaves its data leaves the index and the device. -/
theorem leaves_wqLens {α : Type} {x : Exec (Q.State WQ.WQ_CTX) α}
    (h : Leaves PA.State.pool x) : Leaves wqView (wqLens.zoom x : Exec (MLX5_Context δ) α) := by
  have hindex : Leaves (fun s => s.pool.data.index) x := h.comp fun p => p.data.index
  exact (hindex.zoom (fun _ => rfl) fun _ _ => rfl).prod (leaves_zoom (fun _ _ => rfl) x)

/-- So does finding the index of a queue's UAR page. -/
theorem leaves_uarIndex (wq : PA.ElementPtr) :
    Leaves wqView ((queueEnv wqLens).zoom (Q.uarIndex wq) : Exec (MLX5_Context δ) ℕ) := by
  have hindex : Leaves (fun e : Q.Env WQ.WQ_CTX => e.qop.pool.data.index) (Q.uarIndex wq) := by
    have hread : Leaves (fun s : Q.State WQ.WQ_CTX => s.pool.data.index)
        (PA.derefElement (some wq)) :=
      (PA.leaves_derefElement _).comp fun s : Q.State WQ.WQ_CTX => s.pool.data.index
    unfold Q.uarIndex
    refine Leaves.bind (hread.zoom (fun _ => rfl) fun _ _ => rfl) fun el => ?_
    exact (leaves_zoom (fun _ _ => rfl) _).bind fun _ => leaves_pure _
  exact (hindex.zoom (fun _ => rfl) fun _ _ => rfl).prod (leaves_zoom (fun _ _ => rfl) _)

/-- Naming a work queue enters it in the index. -/
theorem nameQueue_index {wq : PA.ElementPtr} {d : Q.ED WQ.WQ_CTX}
    (hat : ctx.work_queue_pool.heap.dataAt wq = some d) (n : Word) :
    ∃ ctx', nameQueue wqLens wq n ctx = .ok () ctx' ∧
      wqIndex ctx' = Function.update (wqIndex ctx) n.toNat (some wq) ∧ ctx'.hca = ctx.hca := by
  let ctx₁ : MLX5_Context δ :=
    wqLens.set (ctx.work_queue_pool.setData wq { d with id := n }) ctx
  have hstore : wqLens.zoom (PA.storeData (some wq) fun d => { d with id := n }) ctx = .ok () ctx₁ :=
    Lens.zoom_of_ok (PA.storeData_ok hat _)
  have hat₁ : ctx₁.work_queue_pool.heap.dataAt wq = some { d with id := n } :=
    PA.State.dataAt_setData_self hat
  refine ⟨_, (bind_of_ok hstore).trans (Lens.zoom_of_ok (Q.indexQueue_ok hat₁)), ?_, rfl⟩
  show Function.update (ctx.work_queue_pool.setData wq _).pool.data.index _ _ = _
  rw [PA.State.setData_pool]
  rfl

/-- The device sees one command of `alloc_pd`. -/
theorem ends_allocPd (D : CMD.HCA δ) (hidle : CMD.Idle ctx.hca.args) :
    Ends (allocPd D) ctx (fun _ ctx' => wqIndex ctx' = wqIndex ctx ∧
      ∃ c, c.opcode = CMD.OPCODE.ALLOC_PD.value ∧ ctx'.hca.seen = ctx.hca.seen ++ [c])
      fun _ _ => True := by
  have hfits : CMD.Fits (Buf.ofList []) 0 2 := ⟨by norm_num, Nat.le_refl 0, by norm_num⟩
  have hissue := ends_issue D hidle hfits .ALLOC_PD
  have hleave : Leaves wqIndex (hcaLens.zoom (CMD.issue D .ALLOC_PD 0x0 (Buf.ofList []) 0 2) :
      Exec (MLX5_Context δ) ℕ) := leaves_zoom (fun _ _ => rfl) _
  unfold allocPd create
  refine Ends.bind ((hissue.and (hleave ctx)).mono (fun _ _ h => h) fun _ _ _ => trivial) ?_
  rintro slot ctx₁ ⟨hseen, hindex⟩
  -- Reading the output changes neither.
  have hrest : Leaves (fun ctx : MLX5_Context δ => (wqIndex ctx, ctx.hca.seen)) (do
      let ctx ← get
      let output ← argsLens.zoom (CMD.getCmdOutput slot ⟨2, ctx.uninit⟩ 2)
      output.read 0 : Exec (MLX5_Context δ) Word) := by
    refine leaves_get.bind fun ctx => (leaves_zoom (fun _ _ => rfl) _).bind fun output => ?_
    exact leaves_ite (leaves_pure _) (leaves_throw _)
  refine (hrest ctx₁).mono (fun _ ctx' heq => ?_) fun _ _ _ => trivial
  obtain ⟨hindex', hseen'⟩ := Prod.mk.inj heq
  exact ⟨hindex'.trans hindex, _, rfl, hseen'.trans hseen⟩

/-- `create_wqc` enters the queue in the index, and asks the device for a protection domain. -/
theorem ends_createWqc (D : CMD.HCA δ) (h : Sound ctx) (size : ℕ) (n : Word) :
    Ends (createWqc D size n) ctx (fun _ ctx' =>
      (∃ wq el, wqIndex ctx' = Function.update (wqIndex ctx) n.toNat (some wq) ∧
        ctx'.work_queue_pool.heap.elem wq = some el) ∧
        ∃ c, c.opcode = CMD.OPCODE.ALLOC_PD.value ∧ ctx'.hca.seen = ctx.hca.seen ++ [c])
      fun _ _ => True := by
  -- What leaves the index and the device can come before something else.
  have hskip : ∀ {α β : Type} {x : Exec (MLX5_Context δ) α} {g : α → Exec (MLX5_Context δ) β}
      {R : β → MLX5_Context δ → Prop} {ctx : MLX5_Context δ}, Leaves wqView x →
      (∀ a ctx', wqView ctx' = wqView ctx → Ends (g a) ctx' R fun _ _ => True) →
      Ends (x >>= g) ctx R fun _ _ => True := fun hx hg =>
    Ends.bind ((hx _).mono (fun _ _ heq => heq) fun _ _ _ => trivial) hg
  have hmem : ∀ {α : Type} (x : Exec MEM.State α),
      Leaves wqView (memLens.zoom x : Exec (MLX5_Context δ) α) := leaves_zoom fun _ _ => rfl
  have halloc := wqLens_pool.takes_allocQueue (by decide) D h size
  unfold createWqc
  refine Ends.bind (Ends.mono halloc (fun _ _ h => h.2) fun _ _ _ => trivial) ?_
  rintro wq ctx₁ ⟨e, rfl, hallocated⟩
  obtain ⟨d, up, m, uar, hat, -⟩ := hallocated.data
  have hat₁ : ((queueEnv wqLens).set e ctx).work_queue_pool.heap.dataAt wq = some _ := hat
  obtain ⟨ctx₂, hname, hindex, hhca⟩ := nameQueue_index hat₁ n
  refine Ends.bind_of_ok hname ?_
  refine hskip (hmem _) fun mp ctx₃ heq₃ => hskip (hmem _) fun el ctx₄ heq₄ => ?_
  refine hskip (leaves_wqLens (PA.leaves_storeData _ _)) fun _ ctx₅ heq₅ => ?_
  obtain ⟨hindex₅, hhca₅⟩ := Prod.mk.inj (heq₅.trans (heq₄.trans heq₃))
  have hidle : CMD.Idle ctx₅.hca.args := by
    rw [hhca₅, hhca]
    exact h.idle
  refine Ends.bind (ends_allocPd D hidle) ?_
  rintro pd ctx₆ ⟨hindex₆, c, hc, hseen⟩
  -- Allocating the queue object does not touch the index.
  have hbefore : wqIndex ((queueEnv wqLens).set e ctx) = wqIndex ctx :=
    congrArg Q.PD.index hallocated.pool_data
  rw [hindex₅, hindex, hbefore] at hindex₆
  rw [hhca₅, hhca] at hseen
  refine hskip (leaves_uarIndex wq) fun uar ctx₇ heq₇ => hskip (leaves_log2 _) fun k ctx₈ heq₈ => ?_
  -- The last write needs the queue object to be there.
  have hlast := fun f => (leaves_wqLens (PA.leaves_storeData (some wq) f) ctx₈).and
    (PA.ends_storeData wq f (wqLens.view ctx₈)).zoom
  refine Ends.bind ((hlast _).mono (fun _ _ h => h) fun _ _ _ => trivial) ?_
  rintro - ctx₉ ⟨heq₉, s, rfl, d₉, hat₉⟩
  obtain ⟨el₉, hel₉, -⟩ := PA.Heap.exists_elem_of_dataAt hat₉
  -- Put together, the index has one more entry and the device has seen one more command.
  obtain ⟨hindex₉, hhca₉⟩ := Prod.mk.inj (heq₉.trans (heq₈.trans heq₇))
  refine ends_pure ⟨⟨wq, el₉, hindex₉.trans hindex₆, hel₉⟩, c, hc, ?_⟩
  rw [hhca₉]
  exact hseen

/-- What `create_wqc` leaves. -/
theorem createWqc_created (D : CMD.HCA δ) (h : Sound ctx) {r : Word}
    (hrun : createWqc D size n ctx = .ok r ctx') : Created ctx ctx' n := by
  obtain ⟨hindex, hseen⟩ := (ends_createWqc D h size n).1 _ _ hrun
  exact ⟨((takes_createWqc D h size n).1 _ _ hrun).1, hindex, hseen⟩

/-- `destroy_wqc` of a queue in the index returns on a device that reports no error. -/
theorem destroyWqc_returns (hD : ∀ d c, (D.exec d c).2.Ok) (hidle : CMD.Idle ctx.hca.args)
    {wq : PA.ElementPtr} {el : PA.Element (Q.ED WQ.WQ_CTX)} (hindex : wqIndex ctx n.toNat = some wq)
    (hel : ctx.work_queue_pool.heap.elem wq = some el) :
    ∃ ctx', destroyWqc D n ctx = .ok () ctx' := by
  have hfits : CMD.Fits (Buf.ofList [el.data.q_ctx.wqc.pd, 0]) 2 DEALLOC_PD_OUTPUT_LENGTH :=
    ⟨by norm_num, Nat.le_refl 2, by norm_num⟩
  obtain ⟨w, -, -, -, -, -, hissue⟩ := CMD.issue_cases D hidle hfits .DEALLOC_PD 0x0
  have hget : wqLens.zoom (Q.getQueue n) ctx = .ok (some wq) ctx := by
    rw [← hindex]
    rfl
  have hderef : wqLens.zoom (PA.derefElement (some wq)) ctx = .ok el ctx :=
    Lens.zoom_of_ok (PA.derefElement_ok hel)
  have hok := hissue.resolve_right fun hnot => hnot.1 (hD _ _)
  unfold destroyWqc deallocPd
  exact ⟨_, (bind_of_ok hget).trans ((bind_of_ok hderef).trans (bind_of_ok (Lens.zoom_of_ok hok)))⟩

/-- Whatever `destroy_wqc` does, it leaves the pool of work queues. -/
theorem leaves_destroyWqc (D : CMD.HCA δ) (n : Word) :
    Leaves MLX5_Context.work_queue_pool (destroyWqc D n) := by
  have hget : Leaves id (Q.getQueue n : Exec (Q.State WQ.WQ_CTX) (Option PA.ElementPtr)) :=
    leaves_get.bind fun s => leaves_pure _
  have hread : ∀ {α : Type} {x : Exec (Q.State WQ.WQ_CTX) α}, Leaves id x →
      Leaves (fun ctx : MLX5_Context δ => ctx.work_queue_pool) (wqLens.zoom x) := fun hx =>
    hx.zoom (fun _ => rfl) fun _ _ => rfl
  unfold destroyWqc deallocPd
  refine (hread hget).bind fun found => ?_
  cases found with
  | none => exact leaves_throw _
  | some wq =>
    refine (hread (PA.leaves_derefElement _)).bind fun el => ?_
    exact (leaves_zoom (fun _ _ => rfl) _).bind fun _ => leaves_pure _

/-! ## Sequences of calls -/

/-- A call. -/
inductive WqCall
  | create (size : ℕ) (n : Word)
  | destroy (n : Word)

/-- The context, and the numbers of the work queues that have been created and not destroyed. -/
structure WorkQueues (δ : Type) where
  ctx : MLX5_Context δ
  live : List Word

/-- A call that returns. A number is created when it is not in use, and destroyed when it is. -/
inductive WqStep (D : CMD.HCA δ) : WorkQueues δ → WqCall → WorkQueues δ → Prop
  | create {c : WorkQueues δ} {size : ℕ} {n r : Word} {ctx' : MLX5_Context δ} (hnew : n ∉ c.live)
    (hrun : createWqc D size n c.ctx = .ok r ctx') :
    WqStep D c (.create size n) ⟨ctx', n :: c.live⟩
  | destroy {c : WorkQueues δ} {n : Word} {ctx' : MLX5_Context δ} (hlive : n ∈ c.live)
    (hrun : destroyWqc D n c.ctx = .ok () ctx') :
    WqStep D c (.destroy n) ⟨ctx', c.live.erase n⟩

/-- The number of commands of a kind. -/
def commands (seen : List CMD.Command) (opcode : CMD.OPCODE) : ℕ :=
  seen.countP fun c => c.opcode = opcode.value

/-- The work queues since the context `start`: for each of them there is an object in the pool, an
entry of the index, a UAR page, a memory page and a protection domain, and for nothing else. -/
structure Balanced (start : MLX5_Context δ) (c : WorkQueues δ) : Prop where
  size : c.ctx.work_queue_pool.pool.size = c.live.length
  keys : ∀ k, (wqIndex c.ctx k).isSome ↔ ∃ n ∈ c.live, n.toNat = k
  uar : c.ctx.uar_page_pool.pool.size = start.uar_page_pool.pool.size + c.live.length
  mem : c.ctx.mem_page_pool.pool.size = start.mem_page_pool.pool.size + c.live.length
  domains : commands c.ctx.hca.seen .ALLOC_PD + commands start.hca.seen .DEALLOC_PD =
    commands start.hca.seen .ALLOC_PD + commands c.ctx.hca.seen .DEALLOC_PD + c.live.length

/-- A call that creates a work queue. -/
def WqCall.Creates (_ : WorkQueues δ) : WqCall → Prop
  | .create _ _ => True
  | .destroy _ => False

/-- Creating a work queue keeps the balance. -/
theorem Balanced.create {start : MLX5_Context δ} {c : WorkQueues δ} (h : Balanced start c)
    (hcreated : Created c.ctx ctx' n) : Balanced start ⟨ctx', n :: c.live⟩ where
  size := by
    have hsize : ctx'.work_queue_pool.pool.size = c.ctx.work_queue_pool.pool.size + 1 :=
      hcreated.grew.size .work
    rw [hsize, h.size, List.length_cons]
  keys k := by
    -- The keys are those of before and the number of the new queue.
    obtain ⟨wq, el, hindex, -⟩ := hcreated.index
    show (wqIndex ctx' k).isSome ↔ ∃ m ∈ n :: c.live, m.toNat = k
    simp only [List.mem_cons, exists_eq_or_imp]
    rw [hindex, ← h.keys k]
    by_cases hk : k = n.toNat
    · rw [hk, Function.update_self]
      exact ⟨fun _ => .inl rfl, fun _ => rfl⟩
    · rw [Function.update_of_ne hk]
      exact ⟨.inr, fun hkey => hkey.resolve_left fun heq => hk heq.symm⟩
  uar := by
    have hsize : ctx'.uar_page_pool.pool.size = c.ctx.uar_page_pool.pool.size + 1 :=
      hcreated.grew.size .uar
    rw [hsize, h.uar, List.length_cons, Nat.add_assoc]
  mem := by
    have hsize : ctx'.mem_page_pool.pool.size = c.ctx.mem_page_pool.pool.size + 1 :=
      hcreated.grew.size .mem
    rw [hsize, h.mem, List.length_cons, Nat.add_assoc]
  domains := by
    -- One protection domain more is allocated, and none is deallocated.
    obtain ⟨command, hopcode, hseen⟩ := hcreated.seen
    have hbefore := h.domains
    have halloc : commands ctx'.hca.seen .ALLOC_PD = commands c.ctx.hca.seen .ALLOC_PD + 1 := by
      unfold commands
      rw [hseen, List.countP_append, List.countP_singleton, hopcode]
      rfl
    have hdealloc : commands ctx'.hca.seen .DEALLOC_PD = commands c.ctx.hca.seen .DEALLOC_PD := by
      unfold commands
      rw [hseen, List.countP_append, List.countP_singleton, hopcode]
      rfl
    rw [halloc, hdealloc, List.length_cons]
    omega

/-- In a run of calls from a context without work queues: there is one of each for each work queue,
exactly when none has been destroyed. -/
theorem balanced_iff_noDestroy (D : CMD.HCA δ) {start : MLX5_Context δ} (hsound : Sound start)
    (hsize : start.work_queue_pool.pool.size = 0) (hindex : ∀ k, wqIndex start k = none)
    {calls : List (WorkQueues δ × WqCall)} {c : WorkQueues δ}
    (hrun : Run (WqStep D) ⟨start, []⟩ calls c) :
    Throughout (Balanced start) calls c ↔ AllSteps WqCall.Creates calls := by
  have hstart : Balanced start ⟨start, []⟩ :=
    ⟨hsize, fun k => by simp [hindex], rfl, rfl, rfl⟩
  refine Run.all_iff (I := fun c => Sound c.ctx ∧ Balanced start c) ⟨hsound, hstart⟩
    (fun _ h => h.2) ?_ ?_ hrun
  · intro c call c' h hstep hcreates
    cases hstep with
    | create hnew hrun =>
      have hcreated := createWqc_created D h.1 hrun
      exact ⟨hcreated.grew.sound, h.2.create hcreated⟩
    | destroy hlive hrun => cases hcreates
  · intro c call c' h hstep hdestroys hbalanced
    cases hstep with
    | create hnew hrun => exact hdestroys trivial
    | destroy hlive hrun =>
      -- The queue is still in its pool.
      rename_i n ctx'
      have hpool : ctx'.work_queue_pool.pool = c.ctx.work_queue_pool.pool :=
        congrArg PA.State.pool ((leaves_destroyWqc D n c.ctx).1 _ _ hrun)
      have hafter : ctx'.work_queue_pool.pool.size = (c.live.erase n).length := hbalanced.size
      have hbefore := h.2.size
      rw [List.length_erase_of_mem hlive] at hafter
      have hpos : 0 < c.live.length := List.length_pos_of_mem hlive
      rw [hpool] at hafter
      omega

/-! ## Three work queues, and one that is destroyed -/

/-- A work queue can be created at the start, and destroyed. -/
theorem createWqc_start : ∃ ctx₁ r, createWqc (still Unit) 1 0 startContext = .ok r ctx₁ ∧
    Created startContext ctx₁ 0 ∧ ∃ ctx₂, destroyWqc (still Unit) 0 ctx₁ = .ok () ctx₂ := by
  have htakes := takes_createWqc (still Unit) startContext_sound 1 0
  obtain ⟨r, ctx₁, hrun, -⟩ := htakes.returns (granted_still _) (by norm_num [HCA_PAGE_SIZE])
    (startContext_room fun p => by cases p <;> decide)
  have hcreated := createWqc_created (still Unit) startContext_sound hrun
  obtain ⟨wq, el, hindex, hel⟩ := hcreated.index
  have hfound : wqIndex ctx₁ (0 : Word).toNat = some wq := by
    rw [hindex]
    exact Function.update_self ..
  exact ⟨ctx₁, r, hrun, hcreated, destroyWqc_returns (fun _ _ => ⟨rfl, rfl⟩)
    hcreated.grew.sound.idle hfound hel⟩

/-- Work queues with different numbers can be created one after the other at the start, as many as the
pools have room for. The last of them is the first one of the list. -/
theorem creates_start {qs : List (ℕ × Word)} (hnodup : (qs.map Prod.snd).Nodup)
    (hsize : ∀ q ∈ qs, 0 < q.1 * HCA_PAGE_SIZE % 2 ^ 64) (hlength : qs.length ≤ 1024) :
    ∃ calls c, Run (WqStep (still Unit)) ⟨startContext, []⟩ calls c ∧
      calls.map Prod.snd = qs.reverse.map (fun q => WqCall.create q.1 q.2) ∧
      c.live = qs.map Prod.snd ∧ Grew startContext c.ctx fun p => qs.length * wqNeeds p := by
  induction qs with
  | nil =>
    refine ⟨[], ⟨startContext, []⟩, .nil, rfl, rfl, ?_⟩
    simpa only [List.length_nil, Nat.zero_mul] using startContext_sound.grew_zero
  | cons q qs ih =>
    rw [List.map_cons, List.nodup_cons] at hnodup
    obtain ⟨calls, c, hrun, hcalls, hlive, hgrew⟩ := ih hnodup.2
      (fun q' hq' => hsize q' (List.mem_cons_of_mem _ hq')) (Nat.le_of_succ_le hlength)
    -- Each pool needs one more element at most.
    have hroom : Room c.ctx wqNeeds := by
      refine hgrew.room_iff.mpr (startContext_room fun p => ?_)
      have hone : wqNeeds p ≤ 1 := by cases p <;> decide
      calc qs.length * wqNeeds p + wqNeeds p = (q :: qs).length * wqNeeds p := by
            rw [List.length_cons, Nat.add_one_mul]
        _ ≤ 1024 * 1 := Nat.mul_le_mul hlength hone
    have htakes := takes_createWqc (still Unit) hgrew.sound q.1 q.2
    obtain ⟨r, ctx', hcreate, hgrew', -⟩ :=
      htakes.returns (hgrew.granted (granted_still _)) (hsize q List.mem_cons_self) hroom
    have hstep : WqStep (still Unit) c (.create q.1 q.2) ⟨ctx', q.2 :: c.live⟩ :=
      .create (hlive ▸ hnodup.1) hcreate
    refine ⟨_, _, hrun.snoc hstep, ?_, ?_, ?_⟩
    · rw [List.map_append, hcalls, List.reverse_cons, List.map_append]
      rfl
    · show q.2 :: c.live = (q :: qs).map Prod.snd
      rw [hlive, List.map_cons]
    · have hsum := hgrew.trans hgrew'
      simpa only [List.length_cons, Nat.add_one_mul] using hsum

/-- The sizes and the numbers of three work queues, the last of which is created first. -/
def threeQueues : List (ℕ × Word) := [(2, 9), (1, 0), (5, 4)]

/-- The balance while three work queues are created. -/
theorem balanced_threeQueues : ∃ calls c, Run (WqStep (still Unit)) ⟨startContext, []⟩ calls c ∧
    calls.map Prod.snd = [.create 5 4, .create 1 0, .create 2 9] ∧ c.live = [9, 0, 4] ∧
    Throughout (Balanced startContext) calls c := by
  obtain ⟨calls, c, hrun, hcalls, hlive, -⟩ :=
    @creates_start threeQueues (by decide) (by decide) (by decide)
  refine ⟨calls, c, hrun, hcalls, hlive, ?_⟩
  apply (balanced_iff_noDestroy (still Unit) startContext_sound rfl (fun _ => rfl) hrun).mpr
  intro p hp
  have hcall : p.2 ∈ threeQueues.reverse.map fun q => WqCall.create q.1 q.2 :=
    hcalls ▸ List.mem_map_of_mem hp
  obtain ⟨q, -, hq⟩ := List.mem_map.mp hcall
  rw [← hq]
  trivial

/-- After a work queue has been created and destroyed, its object is still used. -/
theorem not_balanced_destroy : ¬ ∀ (calls : List (WorkQueues Unit × WqCall)) (c : WorkQueues Unit),
    Run (WqStep (still Unit)) ⟨startContext, []⟩ calls c →
      Throughout (Balanced startContext) calls c := fun h => by
  obtain ⟨ctx₁, r, hrun, hcreated, ctx₂, hdestroy⟩ := createWqc_start
  have hfirst : WqStep (still Unit) ⟨startContext, []⟩ (.create 1 0) ⟨ctx₁, [0]⟩ :=
    .create List.not_mem_nil hrun
  have hsecond : WqStep (still Unit) ⟨ctx₁, [0]⟩ (.destroy 0) ⟨ctx₂, []⟩ :=
    .destroy List.mem_cons_self hdestroy
  have hbalanced := (h _ _ ((Run.nil.snoc hfirst).snoc hsecond)).2
  have hpool : ctx₂.work_queue_pool.pool = ctx₁.work_queue_pool.pool :=
    congrArg PA.State.pool ((leaves_destroyWqc (still Unit) 0 ctx₁).1 _ _ hdestroy)
  have hone : ctx₁.work_queue_pool.pool.size = 1 := hcreated.grew.size .work
  have hzero : ctx₂.work_queue_pool.pool.size = 0 := hbalanced.size
  rw [hpool, hone] at hzero
  cases hzero

end L4Rdma.Driver
