import L4Rdma.Driver.Lifecycle
import L4Rdma.Driver.Reclaim
import L4Rdma.Pool.Stock

/-!
# What the functions for queues uphold

The functions that create and use queues work on the pools of queues and of UAR pages, have memory
mapped for the queues, and tell the device about them. An invariant that all of this leaves (`Upheld`) is
kept by every one of these functions, whatever protocol of commands it is about, and by the second
thread as well if it is kept by a page request (`Upheld.passes_await`). Only `create_wqc` takes a memory
page, and may pass from one invariant to another one (`passes_createWqc`).
-/

namespace L4Rdma

open Lib Device

/-! ## What pools keep -/

namespace PA

variable {W PD BD ED : Type}

/-- Writing to the pool's own fields leaves the data of the pool, if its function does. -/
theorem leaves_modifyPool {f : Pool PD → Pool PD} (hf : ∀ p, (f p).data = p.data) :
    Leaves (fun s => s.pool.data) (modifyPool f : Exec (State W PD BD ED) Unit) := fun s =>
  ends_of_ok (modify_apply _ s) (hf s.pool)

/-- Writing to a block leaves the data of the pool. -/
theorem leaves_store (b : Option BlockPtr) (f : Block BD ED → Block BD ED) :
    Leaves (fun s => s.pool.data) (store b f : Exec (State W PD BD ED) Unit) := fun s => by
  unfold store
  cases b with
  | none => exact ends_of_error rfl rfl
  | some b =>
    cases hb : s.heap.block b with
    | none => simp [Ends, hb]
    | some blk => simp [Ends, hb]

/-- The data of a pool has nothing to do with its blocks. -/
theorem leaves_allocBlock (k : Kind W PD BD ED) :
    Leaves (fun s => s.pool.data) (allocBlock k) := by
  have hadd : ∀ b, Leaves (fun s => s.pool.data) (addBlockToPool b : Exec (State W PD BD ED) Unit) := by
    intro b
    unfold addBlockToPool
    refine leaves_get.bind fun s => ?_
    dsimp only
    split
    · refine Leaves.bind (leaves_modifyPool ?_) fun _ => leaves_modifyPool ?_
      all_goals exact fun _ => rfl
    · refine (leaves_store _ _).bind fun _ => (leaves_store _ _).bind fun _ => ?_
      refine Leaves.bind (leaves_modifyPool ?_) fun _ => leaves_modifyPool ?_
      all_goals exact fun _ => rfl
  have hcreate : Leaves (fun s => s.pool.data) (createBlock : Exec (State W PD BD ED) BlockPtr) :=
    fun s => ends_of_ok rfl rfl
  unfold allocBlock
  refine hcreate.bind fun b => leaves_get.bind fun s => (leaves_zoom (fun _ _ => rfl) _).bind fun x => ?_
  exact (leaves_store _ _).bind fun _ => hadd b

/-- So does `alloc_page`. -/
theorem leaves_allocPage (k : Kind W PD BD ED) :
    Leaves (fun s => s.pool.data) (allocPage k) := by
  have hwalk : ∀ fuel b, Leaves (fun s => s.pool.data) (allocPageFrom k fuel b) := by
    intro fuel
    induction fuel with
    | zero => exact fun b => leaves_throw _
    | succ fuel ih =>
      intro b
      have hderef : ∀ b, Leaves (fun s => s.pool.data)
          (deref b : Exec (State W PD BD ED) (Block BD ED)) := fun b =>
        (leaves_deref b).comp fun s => s.pool.data
      unfold allocPageFrom
      refine (hderef b).bind fun blk => leaves_get.bind fun s => ?_
      dsimp only
      split
      · refine Leaves.bind (leaves_modifyPool ?_) fun _ => (leaves_store _ _).bind fun _ => ?_
        · exact fun _ => rfl
        · exact (leaves_store _ _).bind fun _ => leaves_pure _
      · refine leaves_ite ((leaves_allocBlock k).bind fun _ => ?_) ?_
        · exact (hderef _).bind fun blk => ih _
        · exact (hderef _).bind fun blk => ih _
  unfold allocPage
  refine leaves_get.bind fun s => leaves_ite (leaves_pure _) (leaves_ite ?_ ?_)
  · exact (leaves_allocBlock k).bind fun _ => leaves_get.bind fun s => (hwalk _ _).bind fun e => leaves_pure _
  · exact leaves_get.bind fun s => (hwalk _ _).bind fun e => leaves_pure _

end PA

/-- Allocating a queue leaves the index of the UAR page that the device has allocated, and has at most
one more region mapped. -/
theorem Q.ends_allocQueue {Ctx : Type} (size : ℕ) (e : Q.Env Ctx) :
    Ends (Q.allocQueue size) e (fun _ e' =>
      e'.uar_page_pool.pool.data = e.uar_page_pool.pool.data ∧ MEM.Grows e.dma e'.dma)
      fun _ _ => True := by
  -- All but one of the steps leave the DMA space as well.
  let view (e : Q.Env Ctx) := (e.uar_page_pool.pool.data, e.dma)
  -- The queue pool and the record of the accesses are not part of the view.
  have hqop : ∀ {α : Type} (x : Exec (Q.State Ctx) α),
      Leaves view (Env.qopLens.zoom x : Exec (Q.Env Ctx) α) := leaves_zoom fun _ _ => rfl
  have hnote : ∀ b i, Leaves view (notePas b i : Exec (Q.Env Ctx) Unit) := fun b i e =>
    ends_of_ok (modify_apply _ e) rfl
  -- Neither are the page addresses, which go to the queue object.
  have hrecord : ∀ qo i, Leaves view (recordPage qo i () : Exec (Q.Env Ctx) Unit) := by
    intro qo i
    have hwrite : ∀ i w, Leaves view (writePas qo i w : Exec (Q.Env Ctx) Unit) := fun i w =>
      (hqop _).bind fun el => (hnote _ _).bind fun _ => hqop _
    exact (hqop _).bind fun el => (hwrite _ _).bind fun _ => hwrite _ _
  -- The pool of UAR pages keeps its index.
  have huar : ∀ {α : Type} {x : Exec (UAR.State Unit) α}, Leaves (fun s => s.pool.data) x →
      Leaves view (Env.uarLens.zoom x : Exec (Q.Env Ctx) α) := fun hx =>
    (hx.zoom (fun _ => rfl) fun _ _ => rfl).prod (leaves_zoom (fun _ _ => rfl) _)
  have hkeep : ∀ {α β : Type} {x : Exec (Q.Env Ctx) α} {g : α → Exec (Q.Env Ctx) β}
      {R : β → Q.Env Ctx → Prop} {e₁ : Q.Env Ctx}, Leaves view x → view e₁ = view e →
      (∀ a e₂, view e₂ = view e → Ends (g a) e₂ R fun _ _ => True) →
      Ends (x >>= g) e₁ R fun _ _ => True := fun hx h₁ hg =>
    Ends.bind ((hx _).mono (fun _ _ h => h.trans h₁) fun _ _ _ => trivial) hg
  have hcount : ∀ n m, Leaves view (countPages n m : Exec (Q.Env Ctx) ℕ) := fun n m =>
    leaves_ite (leaves_throw _) (leaves_pure _)
  -- The only step that maps something is in here.
  have hfill : ∀ qo e₁, view e₁ = view e → Ends (fillQueue qo size) e₁ (fun _ e' =>
      e'.uar_page_pool.pool.data = e.uar_page_pool.pool.data ∧ MEM.Grows e.dma e'.dma)
      fun _ _ => True := by
    intro qo e₁ h₁
    unfold fillQueue
    refine hkeep leaves_get h₁ fun e₂ e₃ h₃ => hkeep (hcount _ _) h₃ fun n e₄ h₄ => ?_
    refine hkeep (hqop _) h₄ fun _ e₅ h₅ => ?_
    obtain ⟨hdata, hdma⟩ := Prod.mk.inj h₅
    have hmap := (MEM.ends_allocDmaMem (HCA_PAGE_SIZE * n % 2 ^ 32) (Env.dmaLens.view e₅)).zoom
    refine Ends.bind (hmap.mono (fun _ _ h => h) fun _ _ _ => trivial) ?_
    rintro m e₆ ⟨d, rfl, hgrows⟩
    -- From here on the DMA space stays as it is again.
    have hrest : Leaves view (do
        Env.qopLens.zoom (PA.storeData (some qo) fun d => { d with dma_mem := m })
        forRange n () (recordPage qo)
        Env.qopLens.zoom (PA.storeData (some qo) fun d => { d with start := d.dma_mem.virt, head := 0 })
        : Exec (Q.Env Ctx) Unit) :=
      (hqop _).bind fun _ => (leaves_forRange fun i u => hrecord qo i).bind fun _ => hqop _
    refine (hrest _).mono (fun _ e' heq => ?_) fun _ _ _ => trivial
    obtain ⟨hdata', hdma'⟩ := Prod.mk.inj heq
    refine ⟨hdata'.trans hdata, ?_⟩
    rw [hdma', ← hdma]
    exact hgrows
  unfold allocQueue
  refine hkeep (hqop _) rfl fun qo e₁ h₁ => hkeep (huar (PA.leaves_allocPage _)) h₁ fun uarp e₂ h₂ => ?_
  cases qo with
  | none => exact ends_of_error rfl trivial
  | some qo =>
    have hread := (PA.leaves_derefElement uarp).comp fun s : UAR.State Unit => s.pool.data
    refine hkeep (hqop _) h₂ fun _ e₃ h₃ => hkeep (huar hread) h₃ fun _ e₄ h₄ => ?_
    exact (hfill qo e₄ h₄).bind fun _ e₅ h₅ => ends_pure h₅

namespace Driver

variable {δ P α β : Type} {D : CMD.HCA δ} {next : P → Message → Option P} {ctx ctx' : MLX5_Context δ}
  {I J K : MLX5_Context δ → P → Prop} {p : P}

/-! ## Passing from one invariant to another one -/

/-- Where `I` holds, the program obeys the protocol, and `J` holds when it returns. -/
def Passes (D : CMD.HCA δ) (next : P → Message → Option P) (I J : MLX5_Context δ → P → Prop)
    (x : Exec (MLX5_Context δ) α) : Prop :=
  ∀ ctx p, I ctx p → Obeys (talk D) next x ctx p (fun _ => J) fun _ _ _ => True

section Rules

variable {x y : Exec (MLX5_Context δ) α}

/-- A program that only returns changes nothing. -/
theorem passes_pure (a : α) : Passes D next I I (pure a : Exec (MLX5_Context δ) α) := fun _ _ h =>
  obeys_pure h

/-- A program that only stops need not lead anywhere. -/
theorem passes_throw (e : Stop) : Passes D next I J (throw e : Exec (MLX5_Context δ) α) := fun _ _ _ =>
  obeys_throw trivial

/-- Reading the context changes nothing. -/
theorem passes_get : Passes D next I I (get : Exec (MLX5_Context δ) (MLX5_Context δ)) := fun ctx _ h =>
  ends_of_ok (get_apply ctx) ⟨_, Dialogue.leads_refl _ _, h⟩

/-- The rule of sequences. -/
theorem Passes.bind {f : α → Exec (MLX5_Context δ) β} (hx : Passes D next I J x)
    (hf : ∀ a, Passes D next J K (f a)) : Passes D next I K (x >>= f) := fun ctx p h =>
  (hx ctx p h).bind fun a ctx' p' h' => hf a ctx' p' h'

/-- The rule of conditions. -/
theorem passes_ite {c : Prop} [Decidable c] (hx : Passes D next I J x) (hy : Passes D next I J y) :
    Passes D next I J (if c then x else y) := by
  split_ifs
  · exact hx
  · exact hy

/-- What a program leaves holds after it as well. -/
theorem Passes.and_leaves {τ : Type} {f : MLX5_Context δ → τ} (h : Passes D next I J x) (hx : Leaves f x)
    (S : τ → Prop) :
    Passes D next (fun ctx p => I ctx p ∧ S (f ctx)) (fun ctx p => J ctx p ∧ S (f ctx)) x := by
  rintro ctx p ⟨hI, hS⟩
  refine ((h ctx p hI).and_ends (hx ctx)).mono ?_ fun _ _ _ _ => trivial
  rintro _ ctx' p' ⟨hJ, heq⟩
  exact ⟨hJ, heq.symm ▸ hS⟩

/-- An invariant with something that is not known. -/
theorem passes_exists {ι : Type} {I J : ι → MLX5_Context δ → P → Prop}
    (h : ∀ i, Passes D next (I i) (J i) x) :
    Passes D next (fun ctx p => ∃ i, I i ctx p) (fun ctx p => ∃ i, J i ctx p) x := by
  rintro ctx p ⟨i, hi⟩
  exact (h i ctx p hi).mono (fun _ _ _ hj => ⟨i, hj⟩) fun _ _ _ _ => trivial

/-- The rule of loops. -/
theorem passes_forRange {n : ℕ} {a : α} {body : ℕ → α → Exec (MLX5_Context δ) α}
    (h : ∀ i a, Passes D next I I (body i a)) : Passes D next I I (forRange n a body) := fun _ _ h₀ =>
  obeys_forRange (fun _ _ => I) h₀ fun i a ctx p _ h' => h i a ctx p h'

end Rules

/-! ## What has to be upheld -/

/-- What the functions for queues change of the context, apart from the pools of queues: they take UAR
pages, and have memory mapped. -/
structure Quiet (ctx ctx' : MLX5_Context δ) : Prop where
  spoken_eq : spoken ctx' = spoken ctx
  uar : ctx'.uar_page_pool.pool.data = ctx.uar_page_pool.pool.data
  pool : ctx'.mem_page_pool.pool = ctx.mem_page_pool.pool
  heap : ctx'.mem_page_pool.heap = ctx.mem_page_pool.heap
  grows : MEM.Grows ctx.mem_page_pool.world ctx'.mem_page_pool.world

/-- The device and the command arguments have no share in it. -/
theorem Quiet.hca (h : Quiet ctx ctx') : ctx'.hca = ctx.hca := congrArg Prod.fst h.spoken_eq

/-- An invariant that does not depend on this. Where it holds, the device can be told something. -/
structure Lasting (I : MLX5_Context δ → P → Prop) : Prop where
  idle : ∀ ctx p, I ctx p → CMD.Idle ctx.hca.args
  quiet : ∀ ctx ctx' p, I ctx p → Quiet ctx ctx' → I ctx' p

/-- The protocol allows commands with this number, and `J` holds when the device has accepted one. -/
def Allows (next : P → Message → Option P) (I J : MLX5_Context δ → P → Prop) (opcode : CMD.OPCODE) :
    Prop :=
  ∀ ctx p, I ctx p → ∀ c r, c.opcode = opcode.value → ∃ p', next p (.exchange (c, r)) = some p' ∧
    (r.Accepted → ∀ w : CMD.World δ, CMD.Idle w.args → J { ctx with hca := w } p')

/-- An invariant that the functions for queues uphold. -/
structure Upheld (next : P → Message → Option P) (I : MLX5_Context δ → P → Prop) : Prop
    extends Lasting I where
  may : ∀ opcode ∈ forQueues, Allows next I I opcode

/-- What a program for queues must leave: what has been said, the memory pages, and the index of the UAR
page that the device has allocated. -/
abbrev shared (ctx : MLX5_Context δ) : (CMD.World δ × List (ℕ × ℤ)) × MEM.State × UAR.PD :=
  (spoken ctx, ctx.mem_page_pool, ctx.uar_page_pool.pool.data)

section Upholding

variable {x : Exec (MLX5_Context δ) α}

/-- A program that leaves all of this keeps an invariant that lasts. -/
theorem Lasting.passes_of_leaves (hI : Lasting I) (hx : Leaves shared x) : Passes D next I I x := by
  intro ctx p h
  refine obeys_of_silent ((hx ctx).mono (fun _ ctx' heq => ?_) fun _ ctx' heq => ?_)
  · obtain ⟨hspoken, hrest⟩ := Prod.mk.inj heq
    obtain ⟨hmem, huar⟩ := Prod.mk.inj hrest
    refine ⟨said_nil hspoken, hI.quiet ctx ctx' p h ⟨hspoken, huar, ?_, ?_, ?_⟩⟩
    · rw [hmem]
    · rw [hmem]
    · rw [hmem]
      exact MEM.grows_self _
  · exact ⟨said_nil (congrArg Prod.fst heq), trivial⟩

/-- A command that the protocol allows may have any payload and any lengths. -/
theorem Lasting.passes_issue (hI : Lasting I) {opcode : CMD.OPCODE} (h : Allows next I J opcode)
    (op_mod : Word) (payload : Buf) (payload_length output_length : ℕ) :
    Passes D next I J (hcaLens.zoom
      (CMD.issue D opcode op_mod payload payload_length output_length)) := by
  intro ctx p hctx
  have hobeys := obeys_hca next (CMD.obeys_issueAny D (hI.idle ctx p hctx) opcode op_mod
    payload payload_length output_length fun c r hopcode _ _ => h ctx p hctx c r hopcode)
  refine Obeys.mono hobeys ?_ fun _ _ _ _ => trivial
  rintro slot ctx' p' ⟨hctx', hJ, hidle⟩
  rw [hctx']
  exact hJ ctx'.hca hidle

/-- So may the program that takes its output. -/
theorem Lasting.passes_create (hI : Lasting I) {opcode : CMD.OPCODE} (h : Allows next I I opcode)
    (payload : Buf) (payload_length : ℕ) : Passes D next I I (create D opcode payload payload_length) := by
  unfold create
  refine (hI.passes_issue h _ payload payload_length 2).bind fun slot => passes_get.bind fun ctx => ?_
  exact (hI.passes_of_leaves (leaves_takeOutput _ slot _ _)).bind fun output =>
    hI.passes_of_leaves (leaves_read output 0)

/-! ## Queues -/

variable {Ctx : Type} {l : Lens (MLX5_Context δ) (Q.State Ctx)}

/-- A program over a pool of queues does. -/
theorem Lasting.passes_pool (hI : Lasting I) (hl : ∀ s ctx, shared (l.set s ctx) = shared ctx)
    (x : Exec (Q.State Ctx) α) : Passes D next I I (l.zoom x) := hI.passes_of_leaves (leaves_zoom hl x)

/-- Work on a pool of queues, the UAR pages and the DMA space that has at most one more region mapped. -/
theorem Lasting.passes_queueEnv (hI : Lasting I) (hl : ∀ s ctx, shared (l.set s ctx) = shared ctx)
    {x : Exec (Q.Env Ctx) α} (hx : ∀ e, Ends x e (fun _ e' =>
      e'.uar_page_pool.pool.data = e.uar_page_pool.pool.data ∧ MEM.Grows e.dma e'.dma)
      fun _ _ => True) : Passes D next I I ((queueEnv l).zoom x) := by
  intro ctx p h
  have hset : ∀ e, shared ((queueEnv l).set e ctx) = (spoken ctx,
      { ctx.mem_page_pool with world := e.dma }, e.uar_page_pool.pool.data) := fun e => hl e.qop _
  have hspoken : ∀ e (ctx : MLX5_Context δ), spoken ((queueEnv l).set e ctx) = spoken ctx := fun e ctx =>
    congrArg Prod.fst (hl e.qop _)
  have hends := (hx ((queueEnv l).view ctx)).zoom.and ((leaves_zoom (g := spoken) hspoken x) ctx)
  refine obeys_of_silent (hends.mono ?_ fun _ ctx' heq => ⟨said_nil heq.2, trivial⟩)
  rintro a ctx' ⟨⟨e, rfl, huar, hgrows⟩, heq⟩
  obtain ⟨-, hrest⟩ := Prod.mk.inj (hset e)
  obtain ⟨hmem, hdata⟩ := Prod.mk.inj hrest
  refine ⟨said_nil heq, hI.quiet _ _ _ h ⟨heq, hdata.trans huar, ?_, ?_, ?_⟩⟩
  · rw [hmem]
  · rw [hmem]
  · rw [hmem]
    exact hgrows

/-- `alloc_queue` does. -/
theorem Lasting.passes_allocQueue (hI : Lasting I) (hl : ∀ s ctx, shared (l.set s ctx) = shared ctx)
    (size : ℕ) : Passes D next I I ((queueEnv l).zoom (Q.allocQueue size)) :=
  hI.passes_queueEnv hl (Q.ends_allocQueue size)

/-- Reading about a queue has nothing mapped. -/
theorem Lasting.passes_readEnv (hI : Lasting I) (hl : ∀ s ctx, shared (l.set s ctx) = shared ctx)
    {x : Exec (Q.Env Ctx) α} (hx : Leaves (fun e => (e.uar_page_pool, e.dma)) x) :
    Passes D next I I ((queueEnv l).zoom x) := by
  refine hI.passes_queueEnv hl fun e => (hx e).mono (fun _ e' heq => ?_) fun _ _ _ => trivial
  obtain ⟨huar, hdma⟩ := Prod.mk.inj heq
  exact ⟨by rw [huar], hdma ▸ MEM.grows_self _⟩

/-- Reading the index of the UAR page does. -/
theorem Lasting.passes_uarIndex (hI : Lasting I) (hl : ∀ s ctx, shared (l.set s ctx) = shared ctx)
    (qo : PA.ElementPtr) : Passes D next I I ((queueEnv l).zoom (Q.uarIndex qo)) := by
  refine hI.passes_readEnv hl ?_
  unfold Q.uarIndex
  refine (leaves_zoom (fun _ _ => rfl) _).bind fun el => ?_
  have huar : Leaves (fun e : Q.Env Ctx => e.uar_page_pool)
      (Q.Env.uarLens.zoom (PA.derefElement el.data.uarp)) :=
    (PA.leaves_derefElement _).zoom (fun _ => rfl) fun _ _ => rfl
  exact (huar.prod (leaves_zoom (fun _ _ => rfl) _)).bind fun uar => leaves_pure _

/-- Naming a queue does. -/
theorem Lasting.passes_nameQueue (hI : Lasting I) (hl : ∀ s ctx, shared (l.set s ctx) = shared ctx)
    (qo : PA.ElementPtr) (id : Word) : Passes D next I I (nameQueue l qo id) :=
  (hI.passes_pool hl _).bind fun _ => hI.passes_pool hl _

end Upholding

/-! ## The functions for queues -/

/-- Event queues have no share in it. -/
theorem shared_eqLens (s : Q.State Event.EQ_CTX) (ctx : MLX5_Context δ) :
    shared (eqLens.set s ctx) = shared ctx := rfl

/-- Nor have work queues. -/
theorem shared_wqLens (s : Q.State WQ.WQ_CTX) (ctx : MLX5_Context δ) :
    shared (wqLens.set s ctx) = shared ctx := rfl

/-- `create_eq`. -/
theorem Upheld.passes_createEq (hI : Upheld next I) (size : ℕ) (type irq_num : Word) :
    Passes D next I I (createEq D size type irq_num) := by
  -- The queue is allocated, and its fields are filled in.
  have hstart : Passes D next I I (startEq size type irq_num) := by
    unfold startEq
    refine (hI.passes_allocQueue shared_eqLens size).bind fun eq => ?_
    refine (hI.passes_pool shared_eqLens _).bind fun _ => ?_
    refine (hI.passes_pool shared_eqLens _).bind fun el => ?_
    refine passes_ite (Passes.bind (J := I) (passes_throw _) fun _ => ?_) ?_
    all_goals
      refine (hI.passes_of_leaves (leaves_log2 _)).bind fun log_size => ?_
      refine (hI.passes_uarIndex shared_eqLens eq).bind fun uar => ?_
      exact (hI.passes_of_leaves (leaves_eqType _)).bind fun eq_type => passes_pure _
  -- The payload is a buffer of the caller, which the state does not see.
  have hwrite : ∀ (b : Local) (i : ℕ) (w : Word),
      Passes D next I I (b.write i w : Exec (MLX5_Context δ) Local) := fun b i w =>
    hI.passes_of_leaves (leaves_write b i w)
  -- Nor does reading the list of page addresses change anything but the record of the accesses.
  have hread : ∀ eq i, Passes D next I I
      ((queueEnv eqLens).zoom (Q.readPas eq i) : Exec (MLX5_Context δ) Word) := by
    intro eq i
    refine hI.passes_readEnv shared_eqLens ?_
    unfold Q.readPas
    refine (leaves_zoom (fun _ _ => rfl) _).bind fun el => ?_
    exact Leaves.bind (fun e => ends_of_ok (modify_apply _ e) rfl) fun _ => leaves_pure _
  rw [createEq_eq]
  refine hstart.bind fun r => ?_
  obtain ⟨eq, eqi, page_count⟩ := r
  have hfill : Passes D next I I (fillEq eq eqi page_count) := by
    unfold fillEq
    refine (passes_forRange fun i payload => hwrite payload _ _).bind fun payload => ?_
    exact passes_forRange fun i payload => (hread eq i).bind fun w => hwrite payload _ _
  refine hfill.bind fun payload => ?_
  refine (hI.passes_of_leaves (leaves_initEntries (leaves_zoom shared_eqLens _) fun _ _ => rfl)).bind
    fun _ => ?_
  -- Only now the device is asked for something.
  refine passes_get.bind fun ctx => (hI.passes_create (hI.may _ (by decide)) _ _).bind fun eq_number => ?_
  exact (hI.passes_nameQueue shared_eqLens eq eq_number).bind fun _ => passes_pure _

/-- `get_eq_state`. -/
theorem Upheld.passes_getEqState (hI : Upheld next I) (eq_number : Word) :
    Passes D next I I (getEqState D eq_number) := by
  have hstart : Passes D next I I (startState eq_number) := by
    refine passes_get.bind fun ctx => ?_
    cases ctx.event_queue_pool.pool.data.index eq_number.toNat with
    | none => exact passes_throw _
    | some eq => exact (hI.passes_pool shared_eqLens _).bind fun el => passes_pure _
  have hread : ∀ slot uninit n, Leaves id (readState slot uninit n) := fun slot uninit n =>
    (leaves_getCmdOutput slot _ n).bind fun output => leaves_read output 2
  unfold getEqState
  refine hstart.bind fun r => (hI.passes_issue (hI.may _ (by decide)) _ _ _ _).bind fun slot => ?_
  refine passes_get.bind fun ctx => ?_
  have hstatus := (Leaves.zoom_id (argsLens_lawful (δ := δ)) (hread slot ctx.uninit r.2)).comp shared
  refine (hI.passes_of_leaves hstatus).bind fun status => ?_
  exact passes_ite (Passes.bind (J := I) (passes_throw _) fun _ => passes_pure _) (passes_pure _)

/-- `arm_eq`. -/
theorem Lasting.passes_armEq (hI : Lasting I) (eq_number : Word) :
    Passes D next I I (armEq eq_number) := by
  refine passes_get.bind fun ctx => ?_
  cases ctx.event_queue_pool.pool.data.index eq_number.toNat with
  | none => exact passes_throw _
  | some eq =>
    refine (hI.passes_pool shared_eqLens _).bind fun el => ?_
    have huar : (uarLens (δ := δ)).Lawful := ⟨fun _ _ => rfl, fun _ _ _ => rfl, fun _ => rfl⟩
    have hread := (Leaves.zoom_id huar (PA.leaves_derefElement el.data.uarp)).comp shared
    exact (hI.passes_of_leaves hread).bind fun uarp => passes_pure _

/-- The doorbell record of the work queue with this number is in the memory page with this address. -/
def DoorbellAt (ctx : MLX5_Context δ) (wq_number : Word) (page : ℕ) : Prop :=
  ∃ wq d, wqIndex ctx wq_number.toNat = some wq ∧ ctx.work_queue_pool.heap.dataAt wq = some d ∧
    d.q_ctx.wqc.dbr = pair (msb page) (lsb page)

/-- A queue that has been named is in the index. -/
theorem ends_nameWq (wq : PA.ElementPtr) (wq_number : Word) (ctx : MLX5_Context δ) :
    Ends (nameQueue wqLens wq wq_number) ctx
      (fun _ ctx' => wqIndex ctx' wq_number.toNat = some wq) fun _ _ => True := by
  cases hblk : ctx.work_queue_pool.heap.block wq.block with
  | none =>
    have hgone : wqLens.zoom (PA.storeData (some wq) fun d => { d with id := wq_number }) ctx =
        .error (.undefined .use_after_free) ctx := Lens.zoom_of_error (PA.storeData_gone hblk _)
    exact ends_of_error (bind_of_error hgone) trivial
  | some blk =>
    have hat : ctx.work_queue_pool.heap.dataAt wq = some (blk.start wq.index).data := by
      rw [PA.Heap.dataAt, PA.Heap.elem_of_block hblk, Option.map_some]
    obtain ⟨ctx', hname, hindex, -⟩ := nameQueue_index hat wq_number
    refine ends_of_ok hname ?_
    rw [hindex]
    exact Function.update_self ..

/-- Writing to a work queue leaves the index, and then it is there. -/
theorem ends_storeWq (wq : PA.ElementPtr) (f : Q.ED WQ.WQ_CTX → Q.ED WQ.WQ_CTX) (ctx : MLX5_Context δ) :
    Ends (wqLens.zoom (PA.storeData (some wq) f)) ctx (fun _ ctx' => wqIndex ctx' = wqIndex ctx ∧
      ∃ d, ctx'.work_queue_pool.heap.dataAt wq = some (f d)) fun _ _ => True := by
  have hindex := leaves_wqLens (δ := δ) (PA.leaves_storeData (some wq) f)
  refine ((hindex ctx).and (PA.ends_storeData wq f (wqLens.view ctx)).zoom).mono ?_ fun _ _ _ => trivial
  rintro _ ctx' ⟨heq, s, rfl, hdata⟩
  exact ⟨congrArg Prod.fst heq, hdata⟩

/-- `create_wqc`, if taking a memory page passes from one invariant to another one, which may be about the
address of the page. The page is the one with the doorbell record. -/
theorem passes_createWqc {J : ℕ → MLX5_Context δ → P → Prop} (hI : Upheld next I)
    (hJ : ∀ page, Upheld next (J page))
    (htake : ∀ ctx p, I ctx p → Obeys (talk D) next (do
      let mp ← memLens.zoom MEM.allocPage
      memLens.zoom (PA.derefElement (some mp))) ctx p (fun el ctx' p' => J el.data.phys ctx' p')
      fun _ _ _ => True) (size : ℕ) (wq_number : Word) :
    Passes D next I (fun ctx p => ∃ page, J page ctx p ∧ DoorbellAt ctx wq_number page)
      (createWqc D size wq_number) := by
  -- What comes after the page only has to leave the index, in which the queue is.
  have hmem : ∀ {α : Type} (x : Exec MEM.State α), Leaves wqIndex (memLens.zoom x : Exec (MLX5_Context δ) α) :=
    leaves_zoom fun _ _ => rfl
  have hpd : Leaves wqIndex (allocPd D) := by
    unfold allocPd create
    refine (leaves_zoom (fun _ _ => rfl) _).bind fun slot => leaves_get.bind fun ctx => ?_
    exact (leaves_zoom (fun _ _ => rfl) _).bind fun output => leaves_read output 0
  have hstore : ∀ wq f, Leaves wqIndex (wqLens.zoom (PA.storeData (some wq) f) :
      Exec (MLX5_Context δ) Unit) := fun wq f => (leaves_wqLens (PA.leaves_storeData _ f)).comp Prod.fst
  intro ctx p h
  unfold createWqc
  refine (hI.passes_allocQueue shared_wqLens size ctx p h).bind fun wq ctx₁ p₁ h₁ => ?_
  refine (hI.passes_nameQueue shared_wqLens wq wq_number ctx₁ p₁ h₁).bind_and
    (ends_nameWq wq wq_number ctx₁) fun _ ctx₂ p₂ h₂ hindex₂ => ?_
  -- The page is taken. From here on its address is fixed, and the queue stays in the index.
  rw [← bind_assoc]
  have hboth : Leaves wqIndex (do
      let mp ← memLens.zoom MEM.allocPage
      memLens.zoom (PA.derefElement (some mp)) : Exec (MLX5_Context δ) (PA.Element MEM.ED)) :=
    (hmem _).bind fun mp => hmem _
  refine (htake ctx₂ p₂ h₂).bind_and (hboth ctx₂) fun el ctx₃ p₃ h₃ hindex₃ => ?_
  have hJ := hJ el.data.phys
  have hstays : ∀ {α : Type} {x : Exec (MLX5_Context δ) α}, Passes D next (J el.data.phys) (J el.data.phys) x →
      Leaves wqIndex x → Passes D next
        (fun ctx p => J el.data.phys ctx p ∧ wqIndex ctx wq_number.toNat = some wq)
        (fun ctx p => J el.data.phys ctx p ∧ wqIndex ctx wq_number.toNat = some wq) x := fun hx hleaves =>
    hx.and_leaves hleaves fun index => index wq_number.toNat = some wq
  -- The last write is the one of the address, and it goes to the queue that the index has.
  have hlast : ∀ f : Q.ED WQ.WQ_CTX → Q.ED WQ.WQ_CTX,
      (∀ d, (f d).q_ctx.wqc.dbr = pair (msb el.data.phys) (lsb el.data.phys)) → Passes D next
        (fun ctx p => J el.data.phys ctx p ∧ wqIndex ctx wq_number.toNat = some wq)
        (fun ctx p => ∃ page, J page ctx p ∧ DoorbellAt ctx wq_number page) (do
          wqLens.zoom (PA.storeData (some wq) f)
          return wq_number) := by
    rintro f hf ctx p ⟨hctx, hindex⟩
    refine (hJ.passes_pool shared_wqLens _ ctx p hctx).bind_and (ends_storeWq wq f ctx) ?_
    rintro _ ctx' p' hctx' ⟨hindex', d, hd⟩
    exact obeys_pure ⟨_, hctx', wq, f d, (congrFun hindex' _).trans hindex, hd, hf d⟩
  refine Passes.bind (hstays (hJ.passes_pool shared_wqLens _) (hstore wq _)) (fun _ => ?_) ctx₃ p₃
    ⟨h₃, hindex₃.symm ▸ hindex₂⟩
  have hcreate : Passes D next (J el.data.phys) (J el.data.phys) (allocPd D) :=
    hJ.passes_create (hJ.may _ (by decide)) _ _
  refine (hstays hcreate hpd).bind fun pd => ?_
  refine (hstays (hJ.passes_uarIndex shared_wqLens wq)
    ((leaves_uarIndex wq).comp Prod.fst)).bind fun uar => ?_
  exact (hstays (hJ.passes_of_leaves (leaves_log2 _)) (leaves_log2 _)).bind fun log_size =>
    hlast _ fun d => rfl

/-- `destroy_wqc`. -/
theorem Upheld.passes_destroyWqc (hI : Upheld next I) (wq_number : Word) :
    Passes D next I I (destroyWqc D wq_number) := by
  unfold destroyWqc deallocPd
  refine (hI.passes_pool shared_wqLens _).bind fun found => ?_
  cases found with
  | none => exact passes_throw _
  | some wq =>
    refine (hI.passes_pool shared_wqLens _).bind fun el => ?_
    exact (hI.passes_issue (hI.may _ (by decide)) _ _ _ _).bind fun slot => passes_pure _

/-! ## Destroying event queues -/

/-- The event queue pool is a part of the context. -/
theorem eqLens_lawful : (eqLens (δ := δ)).Lawful := ⟨fun _ _ => rfl, fun _ _ _ => rfl, fun _ => rfl⟩

/-- Reading a block of event queues leaves the whole context. -/
theorem leaves_derefEqBlock {τ : Type} (f : MLX5_Context δ → τ) (b : Option PA.BlockPtr) :
    Leaves f (eqLens.zoom (PA.deref b)) :=
  (Leaves.zoom_id eqLens_lawful (PA.leaves_deref b)).comp f

/-- `destroy_eq`. -/
theorem Lasting.passes_destroyEq (hI : Lasting I) (h : Allows next I I .DESTROY_EQ) (eq_number : Word) :
    Passes D next I I (destroyEq D eq_number) := by
  unfold destroyEq
  refine passes_get.bind fun ctx => ?_
  cases ctx.event_queue_pool.pool.data.index eq_number.toNat with
  | none => exact passes_throw _
  | some eq =>
    refine (hI.passes_of_leaves (leaves_derefEqBlock _ _)).bind fun blk => ?_
    exact (hI.passes_issue h _ _ _ _).bind fun slot => passes_pure _

/-- The loop at the start of `teardown_hca`. -/
theorem Lasting.passes_teardownEqs (hI : Lasting I) (h : Allows next I I .DESTROY_EQ) :
    Passes D next I I (teardownEqs D) := by
  unfold teardownEqs teardownBlock teardownElement startAt
  refine passes_get.bind fun ctx => passes_forRange fun i _ => passes_get.bind fun ctx => ?_
  refine passes_forRange fun j _ => Passes.bind (J := I) ?_ fun blk => ?_
  · refine passes_get.bind fun ctx => (hI.passes_of_leaves (leaves_derefEqBlock _ _)).bind fun blk => ?_
    exact passes_ite (passes_pure _) (passes_throw _)
  · exact passes_ite (hI.passes_destroyEq h _) (passes_pure _)

/-! ## Page requests -/

section Requests

variable (hI : Lasting I) (hpages : Allows next I I .MANAGE_PAGES)
  (hmem : ∀ {β : Type} (x : Exec MEM.State β), Passes D next I I (memLens.zoom x))

include hI hpages hmem

/-- `provide_pages`, if the memory pages have no share in the invariant and all commands about pages are
allowed. -/
theorem Lasting.passes_providePages (page_count : ℕ) : Passes D next I I (providePages D page_count) := by
  have hwrite : ∀ (b : Buf) (i : ℕ) (w : Word),
      Passes D next I I (b.write i w : Exec (MLX5_Context δ) Buf) := fun b i w =>
    passes_ite (passes_pure _) (passes_throw _)
  unfold providePages provideBatch providePage
  refine passes_get.bind fun ctx => (passes_forRange fun i b => ?_).bind fun _ => passes_pure _
  refine (hwrite b _ _).bind fun b => (hwrite b _ _).bind fun b => ?_
  refine (passes_forRange fun j b => ?_).bind fun b =>
    (hI.passes_issue hpages _ _ _ _).bind fun _ => passes_pure b
  refine (hmem _).bind fun mp => (hmem _).bind fun blk => ?_
  exact (hwrite b _ _).bind fun b => hwrite b _ _

/-- `reclaim_pages` likewise. -/
theorem Lasting.passes_reclaimPages (page_count : ℤ) : Passes D next I I (reclaimPages D page_count) := by
  have hread : ∀ (b : Buf) (i : ℕ), Passes D next I I (b.read i : Exec (MLX5_Context δ) Word) := fun b i =>
    hI.passes_of_leaves (leaves_read b i)
  have hint : ∀ n, Passes D next I I (int32 n : Exec (MLX5_Context δ) ℤ) := fun n =>
    passes_ite (passes_pure _) (passes_throw _)
  unfold reclaimPages reclaimOutputLength reclaimPage
  refine Passes.bind (J := I) ((hint _).bind fun _ => (hint _).bind fun _ => passes_pure _) fun length => ?_
  refine passes_get.bind fun ctx => (hI.passes_issue hpages _ _ _ _).bind fun slot => ?_
  refine passes_get.bind fun ctx => ?_
  refine (hI.passes_of_leaves (leaves_takeOutput _ slot _ _)).bind fun output => ?_
  refine (passes_forRange fun i _ => ?_).bind fun _ => passes_pure _
  exact (hread _ _).bind fun _ => (hread _ _).bind fun _ => hmem _

end Requests

/-- A page request provides pages or asks for pages, as many as a signed number says. -/
theorem passes_handlePageRequest (hprovide : ∀ n, Passes D next I I (providePages D n))
    (hreclaim : ∀ n, 0 ≤ n → Passes D next I I (reclaimPages D n)) (payload : Event.Payload) :
    Passes D next I I (handlePageRequest D payload) := by
  unfold handlePageRequest
  refine passes_ite (hprovide _) ?_
  intro ctx p h
  -- What is asked for is an absolute value.
  have habs : Obeys (talk D) next (abs (payload 1).toInt) ctx p (fun n ctx' p' => I ctx' p' ∧ 0 ≤ n)
      fun _ _ _ => True := by
    unfold abs int32
    split_ifs
    · exact obeys_pure ⟨h, by omega⟩
    · exact obeys_throw trivial
    · exact obeys_pure ⟨h, by omega⟩
  refine habs.bind ?_
  rintro n ctx' p' ⟨h', hn⟩
  exact (hreclaim n hn ctx' p' h').bind fun _ _ _ h'' => obeys_pure h''

/-! ## The second thread -/

/-- One round of the second thread, if page requests are handled. -/
theorem Upheld.passes_handlerRound (hI : Upheld next I) (hrequest : ∀ payload, Passes D next I I (do
      recordRequest payload
      handlePageRequest D payload)) (eq_number : Word) :
    Passes D next I I (handlerRound D eq_number) := by
  unfold handlerRound
  refine passes_get.bind fun ctx => ?_
  cases ctx.event_queue_pool.pool.data.index eq_number.toNat with
  | none => exact passes_throw _
  | some eq =>
    refine (hI.passes_pool shared_eqLens _).bind fun el => passes_get.bind fun ctx => ?_
    refine passes_ite (passes_pure _) ?_
    refine (hI.passes_of_leaves (leaves_zoom (fun _ _ => rfl) _)).bind fun payload => ?_
    exact (hI.passes_pool shared_eqLens _).bind fun _ => hrequest payload

/-- The second thread and the device, while the main thread waits: any number of rounds and any
events. -/
theorem Upheld.passes_await (hI : Upheld next I) (hrequest : ∀ payload, Passes D next I I (do
      recordRequest payload
      handlePageRequest D payload)) (eq_number : Word) (acts : List Act) : Passes D next I I (await D eq_number acts) := by
  induction acts with
  | nil => exact passes_pure ()
  | cons act acts ih =>
    cases act with
    | post eqe =>
      exact Passes.bind (hI.passes_of_leaves fun ctx => ends_of_ok (modify_apply _ ctx) rfl) fun _ => ih
    | round => exact (hI.passes_handlerRound hrequest eq_number).bind fun _ => ih

/-- `setup_event_queue`, with what the second thread does in the meantime. -/
theorem Upheld.passes_setupEventQueue (hI : Upheld next I) (hrequest : ∀ payload, Passes D next I I (do
      recordRequest payload
      handlePageRequest D payload)) (acts acts' : List Act) :
    Passes D next I I (setupEventQueue D acts acts') := by
  unfold setupEventQueue
  refine (hI.passes_createEq _ _ _).bind fun eq_number => (hI.passes_getEqState eq_number).bind fun _ => ?_
  refine (hI.passes_await hrequest eq_number _).bind fun _ => (hI.passes_armEq eq_number).bind fun _ => ?_
  refine (hI.passes_await hrequest eq_number _).bind fun _ => ?_
  exact (hI.passes_getEqState eq_number).bind fun _ => passes_pure _

end Driver

end L4Rdma
