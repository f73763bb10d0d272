import L4Rdma.Driver.Queues
import L4Rdma.Queue.Alloc

/-!
# Room in the pools

The functions that create queues take elements of several pools, one after the other, and do not
look whether they get one. `Takes` states what such a function takes: when it returns, the pools
have grown by these numbers, and when it accesses a null pointer there was no room for them. The
other direction needs a device and a kernel that let the function come to the access (`Granted`).
`Takes` has rules for sequences, and for the calls that take elements.
-/

namespace L4Rdma.Driver

open Lib Device

/-- The pools of the context. -/
inductive PoolName
  | mem | uar | event | compl | work
  deriving DecidableEq

variable {δ Ctx α β : Type} {ctx ctx' ctx'' : MLX5_Context δ} {n n' m : PoolName → ℕ}

/-- The number of used elements of a pool. -/
def poolSize (ctx : MLX5_Context δ) : PoolName → ℕ
  | .mem => ctx.mem_page_pool.pool.size
  | .uar => ctx.uar_page_pool.pool.size
  | .event => ctx.event_queue_pool.pool.size
  | .compl => ctx.compl_queue_pool.pool.size
  | .work => ctx.work_queue_pool.pool.size

/-- The number of elements that a pool may have. -/
def poolMax (ctx : MLX5_Context δ) : PoolName → ℕ
  | .mem => ctx.mem_page_pool.pool.max
  | .uar => ctx.uar_page_pool.pool.max
  | .event => ctx.event_queue_pool.pool.max
  | .compl => ctx.compl_queue_pool.pool.max
  | .work => ctx.work_queue_pool.pool.max

/-- Each pool has room for a number of elements. -/
def Room (ctx : MLX5_Context δ) (n : PoolName → ℕ) : Prop :=
  ∀ p, poolSize ctx p + n p ≤ poolMax ctx p

/-- The pools are well formed, and commands can be issued. -/
structure Sound (ctx : MLX5_Context δ) : Prop where
  idle : CMD.Idle ctx.hca.args
  mem : PA.Sound ctx.mem_page_pool
  uar : PA.Sound ctx.uar_page_pool
  event : PA.Sound ctx.event_queue_pool
  compl : PA.Sound ctx.compl_queue_pool
  work : PA.Sound ctx.work_queue_pool
  event_count : 0 < ctx.event_queue_pool.pool.data.page_entry_count
  compl_count : 0 < ctx.compl_queue_pool.pool.data.page_entry_count
  work_count : 0 < ctx.work_queue_pool.pool.data.page_entry_count

/-- The pools stay well formed between two contexts, and each has grown by a number of elements. -/
structure Grew (ctx ctx' : MLX5_Context δ) (n : PoolName → ℕ) : Prop where
  sound : Sound ctx'
  size : ∀ p, poolSize ctx' p = poolSize ctx p + n p
  max : ∀ p, poolMax ctx' p = poolMax ctx p
  services : ctx'.mem_page_pool.world.services = ctx.mem_page_pool.world.services

/-- The device reports no error, and the kernel refuses nothing. -/
def Granted (D : CMD.HCA δ) (ctx : MLX5_Context δ) : Prop :=
  (∀ d c, (D.exec d c).2.Ok) ∧ ctx.mem_page_pool.world.services.Grants

/-! ## Growing -/

/-- No pool has more used elements than it may have. -/
theorem Sound.size_le (h : Sound ctx) (p : PoolName) : poolSize ctx p ≤ poolMax ctx p := by
  cases p with
  | mem => exact h.mem.size_le
  | uar => exact h.uar.size_le
  | event => exact h.event.size_le
  | compl => exact h.compl.size_le
  | work => exact h.work.size_le

/-- There is always room for nothing. -/
theorem Sound.room_zero (h : Sound ctx) : Room ctx fun _ => 0 := h.size_le

/-- Nothing has been taken. -/
theorem Sound.grew_zero (h : Sound ctx) : Grew ctx ctx fun _ => 0 := ⟨h, fun _ => rfl, fun _ => rfl, rfl⟩

/-- What has been taken first and what has been taken then. -/
theorem Grew.trans (h : Grew ctx ctx' n) (h' : Grew ctx' ctx'' n') :
    Grew ctx ctx'' fun p => n p + n' p where
  sound := h'.sound
  size p := by rw [h'.size, h.size, Nat.add_assoc]
  max p := (h'.max p).trans (h.max p)
  services := h'.services.trans h.services

/-- There was room for what has been taken. -/
theorem Grew.room (h : Grew ctx ctx' n) : Room ctx n := fun p => by
  have hle := h.sound.size_le p
  rwa [h.size, h.max] at hle

/-- There is room for more when there was room for it together with what has been taken. -/
theorem Grew.room_iff (h : Grew ctx ctx' n) : Room ctx' n' ↔ Room ctx fun p => n p + n' p := by
  unfold Room
  simp only [h.size, h.max, Nat.add_assoc]

/-- Where there is room, there is room for less. -/
theorem Room.mono (h : Room ctx n) (hle : ∀ p, m p ≤ n p) : Room ctx m := fun p => by
  have hp := h p
  have hmp := hle p
  omega

/-- The kernel and the device grant what they did before. -/
theorem Grew.granted {D : CMD.HCA δ} (h : Grew ctx ctx' n) (hD : Granted D ctx) : Granted D ctx' :=
  ⟨hD.1, h.services ▸ hD.2⟩

/-- Changing what is not a pool leaves the pools as they are. -/
theorem Sound.grew_hca (h : Sound ctx) {w : CMD.World δ} (hidle : CMD.Idle w.args) :
    Grew ctx { ctx with hca := w } fun _ => 0 :=
  ⟨⟨hidle, h.mem, h.uar, h.event, h.compl, h.work, h.event_count, h.compl_count, h.work_count⟩,
    fun p => by cases p <;> rfl, fun p => by cases p <;> rfl, rfl⟩

/-- So does changing the memory of event queues, or taking notes. -/
theorem Sound.grew_notes (h : Sound ctx) (eqe : PA.ElementPtr → ℕ → Event.EQE) (overrun : Bool) :
    Grew ctx { ctx with eqe := eqe, pas_overrun := overrun } fun _ => 0 :=
  ⟨⟨h.idle, h.mem, h.uar, h.event, h.compl, h.work, h.event_count, h.compl_count, h.work_count⟩,
    fun p => by cases p <;> rfl, fun p => by cases p <;> rfl, rfl⟩

/-- The pool of memory pages has grown. -/
theorem Sound.grew_mem (h : Sound ctx) {s : MEM.State} {k : ℕ}
    (hgrew : PA.Grew ctx.mem_page_pool s k)
    (hservices : s.world.services = ctx.mem_page_pool.world.services) :
    Grew ctx (memLens.set s ctx) fun p => if p = .mem then k else 0 where
  sound := ⟨h.idle, hgrew.sound, h.uar, h.event, h.compl, h.work, h.event_count, h.compl_count,
    h.work_count⟩
  size p := by
    cases p with
    | mem => exact hgrew.size
    | _ => rfl
  max p := by
    cases p with
    | mem => exact hgrew.max
    | _ => rfl
  services := hservices

/-! ## Pools of queue objects -/

/-- The context with a note of accesses to a list of page addresses. -/
def noteOverrun (ctx : MLX5_Context δ) (overrun : Bool) : MLX5_Context δ :=
  { ctx with pas_overrun := ctx.pas_overrun || overrun }

/-- `l` is the pool of queue objects called `p`. -/
structure QueuePool (l : Lens (MLX5_Context δ) (Q.State Ctx)) (p : PoolName) : Prop where
  view_set : ∀ e ctx, (queueEnv l).view ((queueEnv l).set e ctx) = e
  set_view : ∀ ctx, (queueEnv l).set ((queueEnv l).view ctx) ctx = ctx
  set : ∀ s ctx, l.set s ctx = (queueEnv l).set { (queueEnv l).view ctx with qop := s } ctx
  note : ∀ overrun ctx,
    (queueEnv l).set (((queueEnv l).view ctx).note overrun) ctx = noteOverrun ctx overrun
  size : ∀ ctx, poolSize ctx p = (l.view ctx).pool.size
  max : ∀ ctx, poolMax ctx p = (l.view ctx).pool.max
  sound : ∀ ctx, Sound ctx → PA.Sound (l.view ctx)
  page_entry_count : ∀ ctx, Sound ctx → 0 < (l.view ctx).pool.data.page_entry_count
  /-- A change of the pool of queue objects and the pool of UAR pages changes no other pool. -/
  grew : ∀ {ctx e i j}, Sound ctx → PA.Grew (l.view ctx) e.qop i →
    e.qop.pool.data.page_entry_count = (l.view ctx).pool.data.page_entry_count →
    PA.Grew ctx.uar_page_pool e.uar_page_pool j →
    e.dma.services = ctx.mem_page_pool.world.services →
    Grew ctx ((queueEnv l).set e ctx) fun q => if q = p then i else if q = .uar then j else 0

/-- The memory page pool has no part in the DMA space that the queues use. -/
theorem Sound.mem_other (h : Sound ctx) (dma : MEM.Dma) :
    PA.Sound { ctx.mem_page_pool with world := dma } :=
  h.mem.other ctx.mem_page_pool.pool.data dma

/-- Event queues are in the event queue pool. -/
theorem eqLens_pool : QueuePool (eqLens (δ := δ)) .event where
  view_set _ _ := rfl
  set_view _ := rfl
  set _ _ := rfl
  note _ _ := rfl
  size _ := rfl
  max _ := rfl
  sound _ h := h.event
  page_entry_count _ h := h.event_count
  grew {ctx e i j} h hq hcount hu hservices := by
    refine ⟨⟨h.idle, h.mem_other e.dma, hu.sound, hq.sound, h.compl, h.work, ?_, h.compl_count,
      h.work_count⟩, fun p => ?_, fun p => ?_, hservices⟩
    · exact Nat.lt_of_lt_of_eq h.event_count hcount.symm
    · cases p with
      | event => exact hq.size
      | uar => exact hu.size
      | _ => rfl
    · cases p with
      | event => exact hq.max
      | uar => exact hu.max
      | _ => rfl

/-- Completion queues are in the completion queue pool. -/
theorem cqLens_pool : QueuePool (cqLens (δ := δ)) .compl where
  view_set _ _ := rfl
  set_view _ := rfl
  set _ _ := rfl
  note _ _ := rfl
  size _ := rfl
  max _ := rfl
  sound _ h := h.compl
  page_entry_count _ h := h.compl_count
  grew {ctx e i j} h hq hcount hu hservices := by
    refine ⟨⟨h.idle, h.mem_other e.dma, hu.sound, h.event, hq.sound, h.work, h.event_count, ?_,
      h.work_count⟩, fun p => ?_, fun p => ?_, hservices⟩
    · exact Nat.lt_of_lt_of_eq h.compl_count hcount.symm
    · cases p with
      | compl => exact hq.size
      | uar => exact hu.size
      | _ => rfl
    · cases p with
      | compl => exact hq.max
      | uar => exact hu.max
      | _ => rfl

/-- Work queues are in the work queue pool. -/
theorem wqLens_pool : QueuePool (wqLens (δ := δ)) .work where
  view_set _ _ := rfl
  set_view _ := rfl
  set _ _ := rfl
  note _ _ := rfl
  size _ := rfl
  max _ := rfl
  sound _ h := h.work
  page_entry_count _ h := h.work_count
  grew {ctx e i j} h hq hcount hu hservices := by
    refine ⟨⟨h.idle, h.mem_other e.dma, hu.sound, h.event, h.compl, hq.sound, h.event_count,
      h.compl_count, ?_⟩, fun p => ?_, fun p => ?_, hservices⟩
    · exact Nat.lt_of_lt_of_eq h.work_count hcount.symm
    · cases p with
      | work => exact hq.size
      | uar => exact hu.size
      | _ => rfl
    · cases p with
      | work => exact hq.max
      | uar => exact hu.max
      | _ => rfl

/-! ## Accessing a queue -/

variable {l : Lens (MLX5_Context δ) (Q.State Ctx)} {p : PoolName} {qo : PA.ElementPtr}
  {d : Q.ED Ctx}

/-- Reading a queue object. -/
theorem QueuePool.deref_ok (hl : QueuePool l p)
    (hat : ((queueEnv l).view ctx).queueAt qo = some d) :
    ∃ el, l.zoom (PA.derefElement (some qo)) ctx = .ok el ctx ∧ el.data = d := by
  obtain ⟨el, hel, hd⟩ := PA.Heap.exists_elem_of_dataAt hat
  have hderef : PA.derefElement (some qo) (l.view ctx) = .ok el (l.view ctx) :=
    PA.derefElement_ok hel
  have hsame : l.set (l.view ctx) ctx = ctx := (hl.set _ ctx).trans (hl.set_view ctx)
  exact ⟨el, by rw [Lens.zoom_of_ok hderef, hsame], hd⟩

/-- A pool of queue objects in which nothing has been taken. -/
theorem QueuePool.grew_set (hl : QueuePool l p) (h : Sound ctx) {s : Q.State Ctx}
    (hgrew : PA.Grew (l.view ctx) s 0)
    (hcount : s.pool.data.page_entry_count = (l.view ctx).pool.data.page_entry_count) :
    Grew ctx (l.set s ctx) fun _ => 0 := by
  have hset := hl.grew (e := { (queueEnv l).view ctx with qop := s }) (i := 0) (j := 0) h hgrew
    hcount h.uar.grew_zero rfl
  have hzero : (fun q => if q = p then 0 else if q = PoolName.uar then 0 else 0) = fun _ => 0 :=
    funext fun q => by split_ifs <;> rfl
  rw [hl.set, ← hzero]
  exact hset

/-- Writing to a queue object. -/
theorem QueuePool.store_ok (hl : QueuePool l p) (h : Sound ctx)
    (hat : ((queueEnv l).view ctx).queueAt qo = some d) (f : Q.ED Ctx → Q.ED Ctx) :
    ∃ ctx', l.zoom (PA.storeData (some qo) f) ctx = .ok () ctx' ∧ (Grew ctx ctx' fun _ => 0) ∧
      (queueEnv l).view ctx' = ((queueEnv l).view ctx).setQueue qo (f d) := by
  have hstore : PA.storeData (some qo) f (l.view ctx) = .ok () ((l.view ctx).setData qo (f d)) :=
    PA.storeData_ok hat f
  refine ⟨_, Lens.zoom_of_ok hstore, ?_, ?_⟩
  · exact hl.grew_set h ((hl.sound ctx h).grew_setData qo (f d)) (by rw [PA.State.setData_pool])
  · rw [hl.set, hl.view_set]
    rfl

/-- Naming a queue, which is then found under its number. -/
theorem QueuePool.nameQueue_ok (hl : QueuePool l p) (h : Sound ctx)
    (hat : ((queueEnv l).view ctx).queueAt qo = some d) (id : Word) :
    ∃ ctx', nameQueue l qo id ctx = .ok () ctx' ∧ (Grew ctx ctx' fun _ => 0) ∧
      ((queueEnv l).view ctx').queueAt qo = some { d with id := id } ∧
      ctx'.uar_page_pool = ctx.uar_page_pool ∧
      (l.view ctx').pool.data.index id.toNat = some qo := by
  obtain ⟨ctx₁, hstore, hgrew₁, hview₁⟩ := hl.store_ok h hat fun d => { d with id := id }
  have hat₁ : (l.view ctx₁).heap.dataAt qo = some { d with id := id } := by
    have hat' := Q.Env.queueAt_setQueue (d := { d with id := id }) hat
    rw [← hview₁] at hat'
    exact hat'
  -- Entering the queue in the index takes nothing.
  have hgrew₂ := (hl.sound ctx₁ hgrew₁.sound).grew_other
    { (l.view ctx₁).pool.data with
      index := Function.update (l.view ctx₁).pool.data.index id.toNat (some qo) } ()
  refine ⟨_, (bind_of_ok hstore).trans (Lens.zoom_of_ok (Q.indexQueue_ok hat₁)), ?_, ?_, ?_, ?_⟩
  · exact hgrew₁.trans (hl.grew_set hgrew₁.sound hgrew₂ rfl)
  · rw [hl.set, hl.view_set]
    exact hat₁
  · -- The pool of UAR pages is another part of the context.
    have huar : ∀ s, (l.set s ctx₁).uar_page_pool = ctx₁.uar_page_pool := fun s => by
      have hview := congrArg Q.Env.uar_page_pool (hl.view_set
        { (queueEnv l).view ctx₁ with qop := s } ctx₁)
      rw [← hl.set] at hview
      exact hview
    rw [huar]
    exact congrArg Q.Env.uar_page_pool hview₁
  · -- The index is the one that has been written.
    have hqop : ∀ s, l.view (l.set s ctx₁) = s := fun s => by
      rw [hl.set]
      exact congrArg Q.Env.qop (hl.view_set { (queueEnv l).view ctx₁ with qop := s } ctx₁)
    rw [hqop]
    exact Function.update_self ..

/-! ## What a function takes -/

/-- How a function that takes `n` elements of the pools may stop: with an access through a null
pointer only when there is no room for them, and, on a device and a kernel that do their part, in no
other way when there is no room, or when it is sure to have no other reason to. -/
structure Fails (D : CMD.HCA δ) (sure : Prop) (n : PoolName → ℕ) (ctx : MLX5_Context δ)
    (err : Stop) : Prop where
  room : err = .undefined .null_deref → ¬ Room ctx n
  null : Granted D ctx → sure ∨ ¬ Room ctx n → err = .undefined .null_deref

/-- From `ctx`, the function takes `n` elements of the pools and returns with the postcondition
`P`. -/
def Takes (D : CMD.HCA δ) (sure : Prop) (n : PoolName → ℕ) (x : Exec (MLX5_Context δ) α)
    (ctx : MLX5_Context δ) (P : α → MLX5_Context δ → Prop) : Prop :=
  Ends x ctx (fun a ctx' => Grew ctx ctx' n ∧ P a ctx') fun err _ => Fails D sure n ctx err

variable {D : CMD.HCA δ} {sure sure' : Prop} {x : Exec (MLX5_Context δ) α}
  {f : α → Exec (MLX5_Context δ) β} {P P' : α → MLX5_Context δ → Prop}
  {R : β → MLX5_Context δ → Prop} {err : Stop}

/-- How the part after one that has taken `n` elements may stop. -/
theorem Fails.after (h : Fails D sure n' ctx' err) (hgrew : Grew ctx ctx' n) :
    Fails D sure (fun p => n p + n' p) ctx err where
  room hnull hroom := h.room hnull (hgrew.room_iff.mpr hroom)
  null hD hsure := h.null (hgrew.granted hD)
    (hsure.imp id fun hfull hroom => hfull (hgrew.room_iff.mp hroom))

/-- How a function that takes nothing may stop. -/
theorem Fails.of_ne (hsound : Sound ctx) (hne : err ≠ .undefined .null_deref)
    (hsure : Granted D ctx → ¬ sure) : Fails D sure (fun _ => 0) ctx err where
  room hnull := absurd hnull hne
  null hD h := absurd h (not_or.mpr ⟨hsure hD, not_not_intro hsound.room_zero⟩)

/-- The rule of consequence. -/
theorem Takes.mono (h : Takes D sure n x ctx P) (hsure : sure' → sure)
    (hP : ∀ a ctx', P a ctx' → P' a ctx') : Takes D sure' n x ctx P' :=
  Ends.mono h (fun a ctx' ⟨hgrew, ha⟩ => ⟨hgrew, hP a ctx' ha⟩) fun _ _ herr =>
    ⟨herr.room, fun hD hroom => herr.null hD (hroom.imp hsure id)⟩

/-- A function that returns. -/
theorem takes_of_ok {a : α} (h : x ctx = .ok a ctx') (hgrew : Grew ctx ctx' n) (hP : P a ctx') :
    Takes D sure n x ctx P :=
  ends_of_ok h ⟨hgrew, hP⟩

/-- A function that takes nothing and stops. -/
theorem takes_of_error (hsound : Sound ctx) (h : x ctx = .error err ctx')
    (hne : err ≠ .undefined .null_deref) (hsure : Granted D ctx → ¬ sure) :
    Takes D sure (fun _ => 0) x ctx P :=
  ends_of_error h (.of_ne hsound hne hsure)

/-- The rule of sequences whose first part only stops for lack of room. -/
theorem Takes.bind (h : Takes D True n x ctx P)
    (hf : ∀ a ctx', Grew ctx ctx' n → P a ctx' → Takes D sure n' (f a) ctx' R) :
    Takes D sure (fun p => n p + n' p) (x >>= f) ctx R := by
  refine Ends.bind (Ends.mono h (fun _ _ h => h) fun err _ herr => ?_) fun a ctx' ⟨hgrew, ha⟩ => ?_
  · exact ⟨fun hnull hroom => herr.room hnull (hroom.mono fun p => Nat.le_add_right _ _),
      fun hD _ => herr.null hD (.inl trivial)⟩
  · exact Ends.mono (hf a ctx' hgrew ha) (fun b ctx'' ⟨hgrew', hb⟩ => ⟨hgrew.trans hgrew', hb⟩)
      fun err _ herr => herr.after hgrew

/-- The rule of sequences whose second part takes nothing. -/
theorem Takes.and_then (h : Takes D sure n x ctx P)
    (hf : ∀ a ctx', Grew ctx ctx' n → P a ctx' → Takes D sure (fun _ => 0) (f a) ctx' R) :
    Takes D sure n (x >>= f) ctx R := by
  refine Ends.bind h fun a ctx' ⟨hgrew, ha⟩ => ?_
  exact Ends.mono (hf a ctx' hgrew ha) (fun b ctx'' ⟨hgrew', hb⟩ => ⟨hgrew.trans hgrew', hb⟩)
    fun err _ herr => herr.after hgrew

/-- A sequence whose first part is known to return, and takes nothing. -/
theorem Takes.bind_of_ok {a : α} (h : x ctx = .ok a ctx') (hgrew : Grew ctx ctx' fun _ => 0)
    (hf : Takes D sure n (f a) ctx' R) : Takes D sure n (x >>= f) ctx R := by
  have hzero : (fun p => 0 + n p) = n := funext fun p => Nat.zero_add _
  have hafter : ∀ err, Fails D sure n ctx' err → Fails D sure n ctx err := fun err herr => by
    have h := herr.after hgrew
    rwa [hzero] at h
  refine Ends.bind_of_ok h (Ends.mono hf (fun b ctx'' ⟨hgrew', hb⟩ => ⟨?_, hb⟩) fun err _ => hafter err)
  have h := hgrew.trans hgrew'
  rwa [hzero] at h

/-- The rule of counted loops. Before round `i` the pools have grown by `need i`, and the round takes
what makes it `need (i + 1)`. -/
theorem takes_forRange {k : ℕ} {a : α} {body : ℕ → α → Exec (MLX5_Context δ) α}
    (need took : ℕ → PoolName → ℕ) (I : ℕ → α → MLX5_Context δ → Prop) (hsound : Sound ctx)
    (hzero : ∀ p, need 0 p = 0) (hsucc : ∀ i, i < k → ∀ p, need (i + 1) p = need i p + took i p)
    (hle : ∀ i, i ≤ k → ∀ p, need i p ≤ need k p) (h0 : I 0 a ctx)
    (hstep : ∀ i a ctx', i < k → Sound ctx' → I i a ctx' →
      Takes D True (took i) (body i a) ctx' (I (i + 1))) :
    Takes D True (need k) (forRange k a body) ctx (I k) := by
  have hstart : Grew ctx ctx (need 0) := by
    have hnone : need 0 = fun _ => 0 := funext hzero
    rw [hnone]
    exact hsound.grew_zero
  refine ends_forRange (fun i a ctx' => Grew ctx ctx' (need i) ∧ I i a ctx') ⟨hstart, h0⟩ ?_
  rintro i a ctx' hi ⟨hgrew, hI⟩
  have hnext : (fun p => need i p + took i p) = need (i + 1) := funext fun p => (hsucc i hi p).symm
  refine Ends.mono (hstep i a ctx' hi hgrew.sound hI) (fun a' ctx'' ⟨hgrew', hI'⟩ => ⟨?_, hI'⟩)
    fun err _ herr => ?_
  · rw [← hnext]
    exact hgrew.trans hgrew'
  · have hafter := herr.after hgrew
    rw [hnext] at hafter
    exact ⟨fun hnull hroom => hafter.room hnull (hroom.mono (hle (i + 1) hi)),
      fun hD _ => hafter.null hD (.inl trivial)⟩

/-- A function that is sure to have no other reason to stop returns when there is room. -/
theorem Takes.returns (h : Takes D sure n x ctx P) (hD : Granted D ctx) (hsure : sure)
    (hroom : Room ctx n) : ∃ a ctx', x ctx = .ok a ctx' ∧ Grew ctx ctx' n ∧ P a ctx' := by
  rcases h.cases with ⟨a, ctx', hres, hpost⟩ | ⟨err, ctx', -, hfails⟩
  · exact ⟨a, ctx', hres, hpost⟩
  · exact absurd hroom (hfails.room (hfails.null hD (.inl hsure)))

/-! ## Taking elements -/

/-- One element of a pool of queue objects, and one UAR page. -/
def queueNeeds (p : PoolName) : PoolName → ℕ := fun q => if q = p then 1 else if q = .uar then 1 else 0

/-- A number of memory pages. -/
def memNeeds (k : ℕ) : PoolName → ℕ := fun p => if p = .mem then k else 0

/-- `alloc_page` of a memory page, which is then accessed. -/
theorem takes_allocPage (D : CMD.HCA δ) (h : Sound ctx) :
    Takes D True (memNeeds 1) (memLens.zoom MEM.allocPage) ctx fun mp ctx' =>
      ∃ s el, ctx' = memLens.set s ctx ∧ s.heap.elem mp = some el := by
  have hroom := (MEM.allocPage_room h.mem).zoom (l := memLens (δ := δ))
  refine hroom.mono ?_ ?_
  · rintro mp ctx' ⟨s, rfl, hgrew, hservices, el, hel⟩
    exact ⟨h.grew_mem hgrew hservices, s, el, rfl, hel⟩
  · rintro err ctx' ⟨s, rfl, hfull, hgrants⟩
    refine ⟨fun hnull hroom => ?_, fun hD _ => hgrants hD.2⟩
    have hmax := hfull hnull
    have hlt : ctx.mem_page_pool.pool.size + 1 ≤ ctx.mem_page_pool.pool.max := hroom .mem
    omega

/-- `alloc_queue`. -/
theorem QueuePool.takes_allocQueue (hl : QueuePool l p) (hp : p ≠ .uar) (D : CMD.HCA δ) (h : Sound ctx) (size : ℕ) :
    Takes D True (queueNeeds p) ((queueEnv l).zoom (Q.allocQueue size)) ctx fun qo ctx' =>
      ∃ e, ctx' = (queueEnv l).set e ctx ∧ Q.Allocated ((queueEnv l).view ctx) e size qo := by
  have hroom := (Q.allocQueue_room (e := (queueEnv l).view ctx) (hl.sound ctx h) h.uar size).zoom
  refine hroom.mono ?_ ?_
  · rintro qo ctx' ⟨e, rfl, halloc⟩
    exact ⟨hl.grew h halloc.queue (by rw [halloc.pool_data]; rfl) halloc.uar halloc.services, e, rfl,
      halloc⟩
  · rintro err ctx' ⟨e, rfl, -, hfull, hgrants⟩
    refine ⟨fun hnull hroom => ?_, fun hD _ => hgrants hD.2 (hl.page_entry_count ctx h)⟩
    rcases hfull hnull with hmax | hmax
    · have hlt := hroom p
      rw [hl.size, hl.max, queueNeeds, if_pos rfl] at hlt
      exact absurd hmax (Nat.ne_of_lt hlt)
    · have hlt := hroom .uar
      rw [queueNeeds, if_neg (Ne.symm hp), if_pos rfl] at hlt
      exact absurd hmax (Nat.ne_of_lt hlt)

/-! ## Contexts on another kernel -/

/-- The context on a kernel with other services. -/
def onKernel (r : MEM.L4Re) (ctx : MLX5_Context δ) : MLX5_Context δ :=
  { ctx with mem_page_pool := { ctx.mem_page_pool with
      world := { ctx.mem_page_pool.world with services := r } } }

/-- The kernel has no part in the room in the pools. -/
theorem room_onKernel {r : MEM.L4Re} : Room (onKernel r ctx) n ↔ Room ctx n := by
  have hsize : ∀ p, poolSize (onKernel r ctx) p = poolSize ctx p := fun p => by cases p <;> rfl
  have hmax : ∀ p, poolMax (onKernel r ctx) p = poolMax ctx p := fun p => by cases p <;> rfl
  unfold Room
  simp only [hsize, hmax]

/-- Another kernel leaves the pools well formed. -/
theorem Sound.onKernel (h : Sound ctx) (r : MEM.L4Re) : Sound (onKernel r ctx) :=
  ⟨h.idle, h.mem_other _, h.uar, h.event, h.compl, h.work, h.event_count, h.compl_count,
    h.work_count⟩

/-- A device that stays as it is and replies with zeros. -/
def still (δ : Type) : CMD.HCA δ where
  exec dev _ := (dev, ⟨0, 0, fun _ => 0⟩)

/-- This device, and a kernel that has no end of memory, do their part. -/
theorem granted_still (ctx : MLX5_Context δ) :
    Granted (still δ) (Driver.onKernel MEM.boundless ctx) :=
  ⟨fun _ _ => ⟨rfl, rfl⟩, MEM.boundless_grants⟩

/-! ## The context at the start -/

/-- The pools that `main` sets up are well formed. -/
theorem initContext_sound (dev : δ) : Sound (initContext dev) where
  idle := initContext_idle dev
  mem := ⟨Nat.le_of_ble_eq_true rfl, none, [], MEM.initPool_pages.toRep⟩
  uar := (PA.Reached.empty (k := UAR.kind Unit)
    ⟨rfl, rfl, rfl, Nat.le_of_ble_eq_true rfl, fun _ => rfl⟩).sound
  event := (PA.Reached.empty (k := Q.kind Unit _)
    ⟨rfl, rfl, rfl, Nat.le_of_ble_eq_true rfl, fun _ => rfl⟩).sound
  compl := (PA.Reached.empty (k := Q.kind Unit _)
    ⟨rfl, rfl, rfl, Nat.le_of_ble_eq_true rfl, fun _ => rfl⟩).sound
  work := (PA.Reached.empty (k := Q.kind Unit _)
    ⟨rfl, rfl, rfl, Nat.le_of_ble_eq_true rfl, fun _ => rfl⟩).sound
  event_count := Nat.le_of_ble_eq_true rfl
  compl_count := Nat.le_of_ble_eq_true rfl
  work_count := Nat.le_of_ble_eq_true rfl

/-- The context at the start, on a kernel that has no end of memory. -/
def startContext : MLX5_Context Unit := onKernel MEM.boundless (initContext ())

/-- So are those of this context. -/
theorem startContext_sound : Sound startContext := (initContext_sound ()).onKernel _

/-- Its pools have room for many elements. -/
theorem startContext_room (h : ∀ p, n p ≤ 1024) : Room startContext n := by
  have hsize : ∀ p, poolSize startContext p = 0 := fun p => by cases p <;> rfl
  have hmax : ∀ p, 1024 ≤ poolMax startContext p := fun p => by
    cases p <;> exact Nat.le_of_ble_eq_true rfl
  intro p
  rw [hsize, Nat.zero_add]
  exact Nat.le_trans (h p) (hmax p)

end L4Rdma.Driver
