import L4Rdma.Driver.Guard
import L4Rdma.Driver.Handler

/-!
# Inside the arrays on the stack

`create_eq` and `create_cq` put their payload together in an array of 128 words, and `get_eq_state` in
`server/src/event.cc` reads the context of an event queue into another one. `create_eq` refuses a queue
with more pages than its array has room for, and that is a guard for `get_eq_state` as well
(`Evolves.guarded`). `create_cq` has no guard: it stays inside of its array exactly for up to 43 pages
(`withinArrays_iff`).
-/

namespace L4Rdma.Driver

open Lib Device

variable {δ Ctx : Type} {ctx ctx' : MLX5_Context δ} {size n : ℕ} {eq : PA.ElementPtr}

/-! ## Querying event queues -/

/-- `get_eq_state` up to its command: the number of the queue, and the length of the output. -/
def startState (eq_number : Word) : Exec (MLX5_Context δ) (Word × ℕ) := do
  let ctx ← get
  match ctx.event_queue_pool.pool.data.index eq_number.toNat with
  | none => throw (.undefined .null_deref)
  | some eq =>
    let el ← eqLens.zoom (PA.derefElement (some eq))
    let page_count := Q.pageCount el.data.size Event.PAGE_EQE_COUNT
    return (el.data.id, (Event.EQI_SIZE + page_count * 2) % 2 ^ 32)

/-- `get_eq_state` after its command: the word of the output that has the status. -/
def readState (slot : ℕ) (uninit : ℕ → Word) (output_length : ℕ) : Exec CMD.CMD_Args Word := do
  let output ← CMD.getCmdOutput slot ⟨128, uninit⟩ output_length
  output.read 2

/-- `get_eq_state`. -/
def getEqState (D : CMD.HCA δ) (eq_number : Word) : Exec (MLX5_Context δ) Word := do
  let (id, output_length) ← startState eq_number
  let slot ← hcaLens.zoom (CMD.issue D .QUERY_EQ 0x0 (Buf.ofList [id, 0]) 2 output_length)
  let ctx ← get
  let status ← argsLens.zoom (readState slot ctx.uninit output_length)
  if (status &&& (0xf0000000 : Word)) >>> 28 ≠ 0 then throw (.thrown "EQC Error!")
  return (status &&& (0x00000f00 : Word)) >>> 8

/-! ## Accesses inside of an array -/

/-- The program does not access an array outside of its bounds. -/
def InBounds {σ α : Type} (x : Exec σ α) (s : σ) : Prop :=
  Ends x s (fun _ _ => True) fun err _ => ¬ OutOfBuffer err

/-- Writing inside of a payload. -/
theorem ends_write {σ : Type} {b : Local} {i : ℕ} (h : i < b.size) (w : Word) (s : σ) :
    Ends (b.write i w) s (fun b' _ => b'.size = b.size) fun err _ => ¬ OutOfBuffer err :=
  ends_of_ok (Local.write_of_lt h w s) rfl

/-- Copying words to a payload that has room for them. -/
theorem ends_copyWords {b : Local} {start n : ℕ} (h : start + n ≤ b.size) (words : List Word)
    (ctx : MLX5_Context δ) :
    Ends (forRange n b (copyWord words start)) ctx (fun b' _ => b'.size = b.size)
      fun err _ => ¬ OutOfBuffer err := by
  refine ends_forRange (fun _ b' _ => Local.size b' = b.size) rfl fun i b' ctx' hi hb' => ?_
  exact (ends_write (by omega) _ ctx').mono (fun _ _ hsize => hsize.trans hb') fun _ _ herr => herr

/-- Reading a page address has nothing to do with the payload. -/
theorem avoids_readPas (l : Lens (MLX5_Context δ) (Q.State Ctx)) (qo : PA.ElementPtr) (i : ℕ) :
    Avoids OutOfBuffer ((queueEnv l).zoom (Q.readPas qo i)) := by
  refine Avoids.zoom ?_
  unfold Q.readPas
  refine (Avoids.zoom ((PA.avoids_deref _).bind fun _ => avoids_pure _)).bind fun el => ?_
  exact (avoids_modify _).bind fun _ => avoids_pure _

/-- Copying page addresses to a payload that has room for them, whatever the queue is. -/
theorem ends_copyPas (l : Lens (MLX5_Context δ) (Q.State Ctx)) (qo : PA.ElementPtr) {b : Local}
    {start n : ℕ} (h : start + n ≤ b.size) (ctx : MLX5_Context δ) :
    Ends (forRange n b (copyPas l qo start)) ctx (fun b' _ => b'.size = b.size)
      fun err _ => ¬ OutOfBuffer err := by
  refine ends_forRange (fun _ b' _ => Local.size b' = b.size) rfl fun i b' ctx' hi hb' => ?_
  unfold copyPas
  refine ((avoids_readPas l qo i).ends ctx').bind fun w ctx'' _ => ?_
  exact (ends_write (by omega) w ctx'').mono (fun _ _ hsize => hsize.trans hb') fun _ _ herr => herr

/-- The payload for an event queue has a place for all of its words. -/
theorem fillEq_inBounds (eq : PA.ElementPtr) (eqi : Event.EQI) (h : Event.EQI_SIZE + n ≤ 128)
    (ctx : MLX5_Context δ) : InBounds (fillEq eq eqi n) ctx := by
  unfold fillEq
  refine (ends_copyWords (b := .unassigned 128) (Nat.le_of_ble_eq_true rfl) _ ctx).bind ?_
  intro payload ctx' hsize
  have hroom : Event.EQI_SIZE + n ≤ payload.size := h.trans_eq hsize.symm
  exact (ends_copyPas eqLens eq hroom ctx').mono (fun _ _ _ => trivial) fun _ _ herr => herr

/-- So has the payload for a completion queue. -/
theorem fillCq_inBounds (cq : PA.ElementPtr) (cqc : CQ.CQC) (h : CQ.HEADER_SIZE + n ≤ 128)
    (ctx : MLX5_Context δ) : InBounds (fillCq cq cqc n) ctx := by
  rw [InBounds, Ends, fillCq_eq]
  exact (ends_copyPas cqLens cq (by exact h) ctx).mono (fun _ _ _ => trivial) fun _ _ herr => herr

/-- A few words fit in the first block of a mailbox. -/
theorem ends_unpackMail (mailbox : MEM.DmaMem) {b : Buf} {start n : ℕ} (hn : n ≤ 128)
    (h : start + n ≤ b.size) (a : CMD.CMD_Args) :
    Ends (CMD.unpackMail mailbox b start n) a (fun b' _ => b'.size = b.size)
      fun err _ => ¬ OutOfBuffer err := by
  have hloop : Ends (forRange n ((0, 0), b) (CMD.unpackWord mailbox start)) a
      (fun c _ => c.1 = (n, 0) ∧ c.2.size = b.size) fun err _ => ¬ OutOfBuffer err := by
    refine ends_forRange (fun i (c : (ℕ × ℕ) × Buf) _ => c.1 = (i, 0) ∧ c.2.size = b.size)
      ⟨rfl, rfl⟩ ?_
    rintro i ⟨c, b'⟩ a' hi ⟨hplace, hsize⟩
    dsimp only at hplace hsize
    subst hplace
    have hnext : CMD.nextPlace (i, 0) = (i, 0) := if_neg (by omega)
    unfold CMD.unpackWord
    rw [hnext]
    refine Ends.bind_of_ok (get_apply a') ?_
    rw [if_pos (Nat.succ_pos 49)]
    refine Ends.bind_of_ok (Buf.write_of_lt ?_ _ a') (ends_pure ⟨rfl, hsize⟩)
    show start + i < b'.size
    omega
  unfold CMD.unpackMail
  exact hloop.bind fun c a' ⟨_, hsize⟩ => ends_pure hsize

/-- `get_cmd_output` stays inside of an array of 128 words. -/
theorem ends_getCmdOutput (slot : ℕ) {output : Buf} (hsize : output.size = 128)
    (h : n ≤ 128) (a : CMD.CMD_Args) :
    Ends (CMD.getCmdOutput slot output n) a (fun b' _ => b'.size = 128)
      fun err _ => ¬ OutOfBuffer err := by
  unfold CMD.getCmdOutput
  refine Ends.bind_of_ok (get_apply a) ?_
  by_cases hzero : n = 0
  · rw [if_pos hzero]
    exact ends_pure hsize
  rw [if_neg hzero]
  refine Ends.bind_of_ok (Buf.write_of_lt (by omega) _ a) ?_
  by_cases hone : n > 1
  swap
  · rw [if_neg hone]
    exact ends_pure hsize
  rw [if_pos hone]
  refine Ends.bind_of_ok (Buf.write_of_lt (by show 1 < output.size; omega) _ a) ?_
  by_cases htwo : n > 2
  · rw [if_pos htwo]
    refine (ends_unpackMail _ (by omega) ?_ a).mono (fun _ _ hb => hb.trans hsize) fun _ _ h => h
    show 2 + (n - 2) ≤ output.size
    omega
  · rw [if_neg htwo]
    exact ends_pure hsize

/-- The state of a queue is read inside of the output. -/
theorem readState_inBounds (slot : ℕ) (uninit : ℕ → Word) (h : n ≤ 128) (a : CMD.CMD_Args) :
    InBounds (readState slot uninit n) a := by
  unfold readState
  refine (ends_getCmdOutput slot (by rfl) h a).bind fun output a' hsize => ?_
  have hlt : 2 < output.size := by omega
  exact ends_of_ok (Buf.read_of_lt hlt a') trivial

/-! ## What the functions compute before their arrays -/

/-- Nothing is said about how a program ends. -/
theorem ends_true {σ ε α : Type} (x : EStateM ε σ α) (s : σ) :
    Ends x s (fun _ _ => True) fun _ _ => True :=
  ⟨fun _ _ _ => trivial, fun _ _ _ => trivial⟩

/-- `create_eq` comes to its payload only with few pages. -/
theorem startEq_pages (size : ℕ) (type irq_num : Word) (ctx : MLX5_Context δ) :
    Ends (startEq size type irq_num) ctx (fun r _ => r.2.2 ≤ 31) fun _ _ => True := by
  unfold startEq
  refine (ends_true _ ctx).bind fun eq ctx _ => (ends_true _ ctx).bind fun _ ctx _ => ?_
  refine (ends_true _ ctx).bind fun el ctx _ => ?_
  by_cases hlarge : Q.pageCount el.data.size Event.PAGE_EQE_COUNT > (128 - Event.EQI_SIZE) / 2
  · rw [if_pos hlarge]
    exact ends_of_error rfl trivial
  · rw [if_neg hlarge]
    refine (ends_true _ ctx).bind fun log_size ctx _ => (ends_true _ ctx).bind fun uar ctx _ => ?_
    refine (ends_true _ ctx).bind fun eq_type ctx _ => ends_pure ?_
    exact Nat.le_of_not_lt hlarge

/-- `create_cq` up to its payload. -/
def reachCq (D : CMD.HCA δ) (size : ℕ) : Exec (MLX5_Context δ) (PA.ElementPtr × CQ.CQC × ℕ) := do
  let mp ← memLens.zoom MEM.allocPage
  let el ← memLens.zoom (PA.derefElement (some mp))
  let eq_number ← createEq D 4 Event.EVENT_TYPE_COMPLETION_EVENT 0
  startCq el.data.phys eq_number size

/-- `create_cq` goes on with the payload after that. -/
theorem createCq_eq (D : CMD.HCA δ) (size : ℕ) :
    createCq D size = do
      let (cq, cqc, page_count) ← reachCq D size
      let payload ← fillCq cq cqc page_count
      let ctx ← get
      let cq_number ← create D .CREATE_CQ (payload.toBuf ctx.uninit)
        ((CQ.HEADER_SIZE + page_count * 2) % 2 ^ 32)
      nameQueue cqLens cq cq_number
      return cq_number := by
  unfold createCq reachCq
  simp only [prepareCq, bind_assoc, pure_bind]

/-- `create_cq` comes to its payload only if there is room for what it takes, and it is sure to come
to it if there is. -/
theorem takes_reachCq (D : CMD.HCA δ) (h : Sound ctx) (size : ℕ) :
    Takes D (0 < size) cqNeeds (reachCq D size) ctx fun r ctx' =>
      r.2.2 = Q.pageCount size 64 ∧ ∃ d, ((queueEnv cqLens).view ctx').queueAt r.1 = some d := by
  unfold reachCq
  refine (takes_allocPage D h).bind ?_
  rintro mp ctx₁ hgrew ⟨s, el, hctx, hel⟩
  have hderef : memLens.zoom (PA.derefElement (some mp)) ctx₁ = .ok el ctx₁ := by
    subst hctx
    exact Lens.zoom_of_ok (PA.derefElement_ok hel)
  refine Takes.bind_of_ok hderef hgrew.sound.grew_zero ?_
  have hsmall : Small 4 Event.EVENT_TYPE_COMPLETION_EVENT := by decide
  refine ((takes_createEq D hgrew.sound 4 _ 0).mono (fun _ => hsmall) fun _ _ h => h).bind ?_
  rintro eq_number ctx₂ hgrew₂ -
  refine (takes_startCq D hgrew₂.sound el.data.phys eq_number size).mono id ?_
  rintro r ctx₃ ⟨hstarted, hcount⟩
  obtain ⟨d, -, -, hat, -⟩ := hstarted.queue
  exact ⟨hcount, d, hat⟩

/-! ## Staying inside of the arrays -/

/-- Before their arrays the functions stop, or come to accesses inside of the arrays and a length of
at most 128. -/
structure WithinArrays (D : CMD.HCA δ) (ctx : MLX5_Context δ) (size : ℕ) : Prop where
  create_eq : ∀ type irq_num, Ends (startEq size type irq_num) ctx
    (fun r ctx' => Event.EQI_SIZE + r.2.2 * 2 ≤ 128 ∧ InBounds (fillEq r.1 r.2.1 r.2.2) ctx')
    fun _ _ => True
  create_cq : Ends (reachCq D size) ctx
    (fun r ctx' => (CQ.HEADER_SIZE + r.2.2 * 2) % 2 ^ 32 ≤ 128 ∧
      InBounds (fillCq r.1 r.2.1 r.2.2) ctx')
    fun _ _ => True
  get_eq_state : ∀ eq_number, Ends (startState eq_number) ctx
    (fun r _ => r.2 ≤ 128 ∧ ∀ slot uninit a, InBounds (readState slot uninit r.2) a)
    fun _ _ => True

/-- The guard of `create_eq` is enough for its own array. -/
theorem createEq_within (size : ℕ) (type irq_num : Word) (ctx : MLX5_Context δ) :
    Ends (startEq size type irq_num) ctx
      (fun r ctx' => Event.EQI_SIZE + r.2.2 * 2 ≤ 128 ∧ InBounds (fillEq r.1 r.2.1 r.2.2) ctx')
      fun _ _ => True := by
  refine (startEq_pages size type irq_num ctx).mono ?_ fun _ _ h => h
  rintro ⟨eq, eqi, page_count⟩ ctx' hle
  dsimp only at hle ⊢
  have hsize : Event.EQI_SIZE = 66 := rfl
  exact ⟨by omega, fillEq_inBounds eq eqi (by omega) ctx'⟩

/-- It is enough for the array of `get_eq_state` as well. -/
theorem getEqState_within (hguarded : Guarded ctx.event_queue_pool) (eq_number : Word) :
    Ends (startState eq_number) ctx
      (fun r _ => r.2 ≤ 128 ∧ ∀ slot uninit a, InBounds (readState slot uninit r.2) a)
      fun _ _ => True := by
  obtain ⟨pre, l, hrep, hfew⟩ := hguarded
  unfold startState
  refine Ends.bind_of_ok (get_apply ctx) ?_
  cases hindex : ctx.event_queue_pool.pool.data.index eq_number.toNat with
  | none => exact ends_of_error rfl trivial
  | some eq =>
    obtain ⟨-, d, hd, hle⟩ := hfew _ eq hindex
    obtain ⟨el, hel, rfl⟩ := PA.Heap.exists_elem_of_dataAt hd
    have hderef : eqLens.zoom (PA.derefElement (some eq)) ctx = .ok el ctx :=
      Lens.zoom_of_ok (PA.derefElement_ok hel)
    refine Ends.bind_of_ok hderef (ends_pure ?_)
    have hlength : (Event.EQI_SIZE + Q.pageCount el.data.size 64 * 2) % 2 ^ 32 ≤ 128 := by
      have hsize : Event.EQI_SIZE = 66 := rfl
      omega
    exact ⟨hlength, fun slot uninit a => readState_inBounds slot uninit hlength a⟩

/-- `create_cq` stays inside of its array when there are few enough pages, or no room. -/
theorem createCq_within (D : CMD.HCA δ) (h : Sound ctx) {size : ℕ}
    (hfew : Room ctx cqNeeds → Q.pageCount size 64 ≤ 43) :
    Ends (reachCq D size) ctx
      (fun r ctx' => (CQ.HEADER_SIZE + r.2.2 * 2) % 2 ^ 32 ≤ 128 ∧
        InBounds (fillCq r.1 r.2.1 r.2.2) ctx')
      fun _ _ => True := by
  refine Ends.mono (takes_reachCq D h size) ?_ fun _ _ _ => trivial
  rintro ⟨cq, cqc, page_count⟩ ctx' ⟨hgrew, hcount, -⟩
  dsimp only at hcount ⊢
  have hle := hfew hgrew.room
  have hsize : CQ.HEADER_SIZE = 42 := rfl
  rw [hcount]
  exact ⟨by omega, fillCq_inBounds cq cqc (by omega) ctx'⟩

/-- With more than 43 pages and room in the pools, `create_cq` leaves its array or passes a length
that its array does not have. -/
theorem createCq_not_within (h : Sound ctx) {size : ℕ} (hroom : Room ctx cqNeeds)
    (hlarge : 43 < Q.pageCount size 64) :
    ¬ WithinArrays (still δ) (onKernel MEM.boundless ctx) size := by
  intro hwithin
  have hpos : 0 < size := by
    rcases Nat.eq_zero_or_pos size with rfl | hpos
    · have hzero : Q.pageCount 0 64 = 0 := rfl
      omega
    · exact hpos
  obtain ⟨⟨cq, cqc, page_count⟩, ctx', hres, -, hcount, d, hat⟩ :=
    (takes_reachCq (still δ) (h.onKernel MEM.boundless) size).returns (granted_still ctx) hpos
      (room_onKernel.mpr hroom)
  obtain ⟨hlength, hbounds⟩ := hwithin.create_cq.1 _ _ hres
  dsimp only at hcount hlength hbounds
  have hsize : CQ.HEADER_SIZE = 42 := rfl
  rcases Nat.lt_or_ge 86 page_count with hover | hle
  · obtain ⟨ctx'', herr⟩ := fillCq_overflow hat cqc (n := page_count) (by omega)
    exact hbounds.2 _ _ herr (.inl rfl)
  · omega

/-- Wherever the driver comes to: `create_eq`, `create_cq` and `get_eq_state` stay inside of their
arrays, whatever the device and the kernel do, exactly when there are at most 43 pages or no room for
what `create_cq` takes. -/
theorem withinArrays_iff (h : Evolves ctx) (size : ℕ) :
    (∀ (D : CMD.HCA δ) (r : MEM.L4Re), WithinArrays D (onKernel r ctx) size) ↔
      (Room ctx cqNeeds → Q.pageCount size 64 ≤ 43) := by
  obtain ⟨hsound, hguarded⟩ := h.guarded
  constructor
  · intro hwithin hroom
    by_contra hlarge
    exact createCq_not_within hsound hroom (Nat.lt_of_not_le hlarge) (hwithin _ _)
  · intro hfew D r
    have hguarded' : Guarded (onKernel r ctx).event_queue_pool := hguarded
    exact {
      create_eq := fun type irq_num => createEq_within size type irq_num _
      create_cq := createCq_within D (hsound.onKernel r) fun hroom => hfew (room_onKernel.mp hroom)
      get_eq_state := fun eq_number => getEqState_within hguarded' eq_number }

/-- `get_eq_state` finds a queue of the index, and asks for its context with the addresses of all its
pages. -/
theorem startState_indexed {eq_number : Word} (h : IndexedAt ctx eq_number size) :
    startState eq_number ctx = .ok
      (eq_number, (Event.EQI_SIZE + Q.pageCount size Event.PAGE_EQE_COUNT * 2) % 2 ^ 32) ctx := by
  obtain ⟨eq, d, hindex, hat, rfl, rfl⟩ := h
  obtain ⟨el, hel, rfl⟩ := PA.Heap.exists_elem_of_dataAt hat
  have hderef : eqLens.zoom (PA.derefElement (some eq)) ctx = .ok el ctx :=
    Lens.zoom_of_ok (PA.derefElement_ok hel)
  unfold startState
  refine (bind_of_ok (get_apply ctx)).trans ?_
  simp only [hindex]
  exact bind_of_ok hderef

/-- Where an event queue has been created, `create_cq` may have 43 pages, and `get_eq_state` comes to
its array with 68 words of that queue. -/
theorem withinArrays_afterCreateEq : ∃ eq_number ctx,
    createEq (still Unit) 64 0x9 0 startContext = .ok eq_number ctx ∧
      startState eq_number ctx = .ok (eq_number, 68) ctx ∧
      ∀ (D : CMD.HCA Unit) (r : MEM.L4Re), WithinArrays D (onKernel r ctx) (64 * 43) := by
  have hstart : Evolves startContext := .start startContext_sound fun _ => rfl
  have htakes := takes_createEq_indexed (still Unit) startContext_sound 64 0x9 0
  obtain ⟨eq_number, ctx, hcreate, -, hindexed⟩ := htakes.returns (granted_still _) (by decide)
    (startContext_room fun p => by cases p <;> decide)
  have hrun : (Call.createEq 64 0x9 0).run (still Unit) startContext = .ok () ctx :=
    bind_of_ok hcreate
  have hevolves : Evolves ctx := hstart.call (still Unit) (.createEq 64 0x9 0) hrun
  refine ⟨eq_number, ctx, hcreate, startState_indexed hindexed, ?_⟩
  exact (withinArrays_iff hevolves (64 * 43)).mpr fun _ => by decide

/-- With one page more, `create_cq` passes a length of 130 words of its array of 128. -/
theorem not_withinArrays :
    ¬ ∀ (D : CMD.HCA Unit) (r : MEM.L4Re), WithinArrays D (onKernel r startContext) (64 * 44) := by
  intro hwithin
  have hroom : Room startContext cqNeeds := startContext_room fun p => by cases p <;> decide
  exact createCq_not_within startContext_sound hroom (by decide) (hwithin _ _)

end L4Rdma.Driver
