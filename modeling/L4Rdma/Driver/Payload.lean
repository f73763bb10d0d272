import L4Rdma.Driver.Room

/-!
# The payloads that create queues

`create_eq` and `create_cq` put the context of their queue and the addresses of its pages into an array on
the stack. What they take from the pools on the way there, and what can stop them, is that of
`alloc_queue`; after it they only stop for what they refuse or cannot compute with (`finishEq_cases`).
Their loops copy one word for each page, where an address has two, so that a payload is complete only
when no page is due (`complete_iff_noPages`).
-/

namespace L4Rdma

open Lib Device

/-! ## Arrays on the stack -/

/-- The array after `n` words have been assigned to its elements from `start` on. -/
def Local.fill (b : Local) (start n : ℕ) (w : ℕ → Word) : Local :=
  { b with word := fun j => if start ≤ j ∧ j < start + n then some (w (j - start)) else b.word j }

variable {b : Local} {start n i j : ℕ} {w : ℕ → Word}

/-- A word inside of the array is written. -/
theorem Local.write_of_lt {σ : Type} (h : i < b.size) (u : Word) (s : σ) :
    b.write i u s = .ok { b with word := Function.update b.word i (some u) } s := by
  simp [Local.write, h]

/-- A word outside of it is not. -/
theorem Local.write_of_ge {σ : Type} (h : b.size ≤ i) (u : Word) (s : σ) :
    b.write i u s = .error (.undefined .out_of_bounds) s := by
  simp [Local.write, Nat.not_lt_of_le h]

/-- Filling a part of the array leaves its length. -/
@[simp] theorem Local.fill_size : (b.fill start n w).size = b.size := rfl

/-- The words of the part that has been filled. -/
theorem Local.fill_word_of_lt (hle : start ≤ j) (hlt : j < start + n) :
    (b.fill start n w).word j = some (w (j - start)) :=
  if_pos ⟨hle, hlt⟩

/-- The other words stay as they are. -/
theorem Local.fill_word_of_not (h : ¬ (start ≤ j ∧ j < start + n)) :
    (b.fill start n w).word j = b.word j :=
  if_neg h

/-- Nothing has been filled yet. -/
@[simp] theorem Local.fill_zero : b.fill start 0 w = b := by
  have hword : (fun j => if start ≤ j ∧ j < start + 0 then some (w (j - start)) else b.word j) =
      b.word := funext fun j => if_neg (by omega)
  unfold Local.fill
  rw [hword]

/-- One more word is assigned. -/
theorem Local.fill_succ : { b.fill start n w with
    word := Function.update (b.fill start n w).word (start + n) (some (w n)) } =
      b.fill start (n + 1) w := by
  have hword : Function.update (b.fill start n w).word (start + n) (some (w n)) =
      (b.fill start (n + 1) w).word := funext fun j => by
    by_cases hj : j = start + n
    · subst hj
      rw [Function.update_self, Local.fill_word_of_lt (by omega) (by omega),
        Nat.add_sub_cancel_left]
    · have hiff : start ≤ j ∧ j < start + n ↔ start ≤ j ∧ j < start + (n + 1) := by omega
      rw [Function.update_of_ne hj]
      unfold Local.fill
      simp only [hiff]
  unfold Local.fill at hword ⊢
  rw [hword]

/-- The word after those that have been assigned is assigned. -/
theorem Local.fill_write {σ : Type} (h : start + n < b.size) (s : σ) :
    (b.fill start n w).write (start + n) (w n) s = .ok (b.fill start (n + 1) w) s := by
  rw [← Local.fill_succ]
  exact Local.write_of_lt (b := b.fill start n w) h _ s

namespace Driver

variable {δ Ctx : Type} {ctx ctx' : MLX5_Context δ} {l : Lens (MLX5_Context δ) (Q.State Ctx)}
  {p : PoolName} {qo : PA.ElementPtr} {d : Q.ED Ctx} {size : ℕ}

/-! ## Filling payloads -/

/-- Copying a context to a payload. -/
theorem copyWord_loop (words : List Word) (h : start + n ≤ b.size) (ctx : MLX5_Context δ) :
    forRange n b (copyWord words start) ctx = .ok (b.fill start n fun i => words.getD i 0) ctx := by
  have hrounds : ∃ b' ctx', forRange n b (copyWord words start) ctx = .ok b' ctx' ∧
      b' = b.fill start n (fun i => words.getD i 0) ∧ ctx' = ctx := by
    refine forRange_ok
      (fun k b' ctx' => b' = b.fill start k (fun i => words.getD i 0) ∧ ctx' = ctx)
      ⟨Local.fill_zero.symm, rfl⟩ ?_
    rintro k b' ctx' hk ⟨rfl, hctx'⟩
    exact ⟨_, _, Local.fill_write (w := fun i => words.getD i 0) (by omega) ctx', rfl, hctx'⟩
  obtain ⟨b', ctx', hloop, rfl, rfl⟩ := hrounds
  exact hloop

/-- Notes add up. -/
theorem noteOverrun_noteOverrun (x y : Bool) :
    noteOverrun (noteOverrun ctx x) y = noteOverrun ctx (x || y) := by
  unfold noteOverrun
  simp only [Bool.or_assoc]

/-- A note is taken of a queue's own context. -/
theorem QueuePool.view_noteOverrun (hl : QueuePool l p) (x : Bool) :
    (queueEnv l).view (noteOverrun ctx x) = ((queueEnv l).view ctx).note x := by
  rw [← hl.note, hl.view_set]

/-- Reading a page address of a queue. -/
theorem QueuePool.readPas_ok (hl : QueuePool l p)
    (hat : ((queueEnv l).view ctx).queueAt qo = some d) (i : ℕ) :
    (queueEnv l).zoom (Q.readPas qo i) ctx =
      .ok (d.pas_list.word i) (noteOverrun ctx (decide (d.pas_list.size ≤ i))) := by
  rw [Lens.zoom_of_ok (Q.readPas_ok hat i), hl.note]

/-- Copying page addresses to a payload that has room for them. -/
theorem QueuePool.copyPas_loop (hl : QueuePool l p)
    (hat : ((queueEnv l).view ctx).queueAt qo = some d) (h : start + n ≤ b.size) :
    forRange n b (copyPas l qo start) ctx = .ok (b.fill start n d.pas_list.word)
      (noteOverrun ctx (decide (d.pas_list.size < n))) := by
  have hnone : noteOverrun ctx (decide (d.pas_list.size < 0)) = ctx := by
    have hfalse : decide (d.pas_list.size < 0) = false := by simp
    unfold noteOverrun
    rw [hfalse, Bool.or_false]
  have hrounds : ∃ b' ctx', forRange n b (copyPas l qo start) ctx = .ok b' ctx' ∧
      b' = b.fill start n d.pas_list.word ∧
        ctx' = noteOverrun ctx (decide (d.pas_list.size < n)) := by
    refine forRange_ok (fun k b' ctx' => b' = b.fill start k d.pas_list.word ∧
      ctx' = noteOverrun ctx (decide (d.pas_list.size < k))) ⟨Local.fill_zero.symm, hnone.symm⟩ ?_
    rintro k b' ctx' hk ⟨rfl, hctx'⟩
    have hat' : ((queueEnv l).view ctx').queueAt qo = some d := by
      rw [hctx', hl.view_noteOverrun]
      exact hat
    refine ⟨_, _, (bind_of_ok (hl.readPas_ok hat' k)).trans (Local.fill_write (by omega) _), rfl, ?_⟩
    rw [hctx', noteOverrun_noteOverrun]
    congr 1
    rw [← Bool.decide_or]
    exact decide_eq_decide.mpr (by omega)
  obtain ⟨b', ctx', hloop, rfl, rfl⟩ := hrounds
  exact hloop

/-- Copying more page addresses than a payload has room for writes beyond it. -/
theorem QueuePool.copyPas_overflow (hl : QueuePool l p)
    (hat : ((queueEnv l).view ctx).queueAt qo = some d) (hle : start ≤ b.size)
    (h : b.size < start + n) :
    ∃ ctx', forRange n b (copyPas l qo start) ctx = .error (.undefined .out_of_bounds) ctx' := by
  refine forRange_error (fun _ b' ctx' => b'.size = b.size ∧
    ((queueEnv l).view ctx').queueAt qo = some d) ⟨rfl, hat⟩ (m := b.size - start) (by omega) ?_ ?_
  · intro k b' ctx' hk ⟨hb', hat'⟩
    refine ⟨_, _, (bind_of_ok (hl.readPas_ok hat' k)).trans (Local.write_of_lt (by omega) _ _), hb', ?_⟩
    rw [hl.view_noteOverrun]
    exact hat'
  · intro b' ctx' ⟨hb', hat'⟩
    exact ⟨_, (bind_of_ok (hl.readPas_ok hat' _)).trans (Local.write_of_ge (by omega) _ _)⟩

/-! ## Commands -/

variable {D : CMD.HCA δ} {sure : Prop}

/-- A command with two words of output takes nothing, and stops only when the device reports an
error. -/
theorem takes_create (D : CMD.HCA δ) (h : Sound ctx) (opcode : CMD.OPCODE) {payload : Buf}
    {payload_length : ℕ} (hfits : CMD.Fits payload payload_length 2) :
    Takes D sure (fun _ => 0) (create D opcode payload payload_length) ctx
      fun _ ctx' => ∃ w, ctx' = { ctx with hca := w } := by
  obtain ⟨w, -, -, hidle, -, hanswered, hissue⟩ := CMD.issue_cases D h.idle hfits opcode 0x0
  rcases hissue with hok | ⟨hnot, what, herr⟩
  · have hroom : 2 ≤ Buf.size ⟨2, ctx.uninit⟩ := Nat.le_refl 2
    obtain ⟨output, hget, hsize, -⟩ := CMD.getCmdOutput_ok hanswered hfits.output_le hroom
    have hread : create D opcode payload payload_length ctx =
        .ok (output.word 0) { ctx with hca := w } := by
      have hissued : hcaLens.zoom (CMD.issue D opcode 0x0 payload payload_length 2) ctx =
          .ok ctx.hca.args.cq.head { ctx with hca := w } := Lens.zoom_of_ok hok
      have houtput : argsLens.zoom (CMD.getCmdOutput ctx.hca.args.cq.head ⟨2, ctx.uninit⟩ 2)
          { ctx with hca := w } = .ok output { ctx with hca := w } := Lens.zoom_of_ok hget
      unfold create
      refine (bind_of_ok hissued).trans ((get_bind _ _).trans ((bind_of_ok houtput).trans ?_))
      exact Buf.read_of_lt (by rw [hsize]; exact Nat.succ_pos 1) _
    exact takes_of_ok hread (h.grew_hca hidle) ⟨w, rfl⟩
  · have hthrown : create D opcode payload payload_length ctx =
        .error (.thrown what) { ctx with hca := w } :=
      bind_of_error (Lens.zoom_of_error herr)
    exact takes_of_error h hthrown (fun hnull => (nomatch hnull)) fun hD => absurd (hD.1 _ _) hnot

/-! ## Event queues -/

/-- The first entries of a queue are marked. -/
def withMarks (ctx : MLX5_Context δ) (eq : PA.ElementPtr) (n : ℕ) : MLX5_Context δ :=
  { ctx with eqe := Function.update ctx.eqe eq (Event.marked n (ctx.eqe eq)) }

/-- `init_eq` writes the entries of a queue, or beyond its memory when it is too large for it. -/
theorem initEventQueue_cases {eq : PA.ElementPtr} {d : Q.ED Event.EQ_CTX}
    (hat : ((queueEnv eqLens).view ctx).queueAt eq = some d) :
    ((d.size + 0xffffffffffffffff) % 2 ^ 64 * Event.EQE_BYTES ≤
        memoryBytes ctx.mem_page_pool.world d.dma_mem ∧
      initEventQueue eq ctx = .ok () (withMarks ctx eq (Event.markCount d.size))) ∨
    (¬ (d.size + 0xffffffffffffffff) % 2 ^ 64 * Event.EQE_BYTES ≤
        memoryBytes ctx.mem_page_pool.world d.dma_mem ∧
      initEventQueue eq ctx = .error (.undefined .out_of_bounds) ctx) := by
  obtain ⟨el, hderef, rfl⟩ := eqLens_pool.deref_ok hat
  by_cases hsmall : memoryBytes ctx.mem_page_pool.world el.data.dma_mem <
      (el.data.size + 0xffffffffffffffff) % 2 ^ 64 * Event.EQE_BYTES
  · refine .inr ⟨Nat.not_le_of_lt hsmall, ?_⟩
    unfold initEventQueue
    refine (bind_of_ok hderef).trans ((get_bind _ _).trans ?_)
    rw [doIf_of_pos hsmall]
    rfl
  · generalize hn : Event.markCount el.data.size = n
    have hinit := Event.initEq_ok ((eqMemory eq el.data.toQueue).view ctx) hn.symm
    refine .inl ⟨Nat.le_of_not_lt hsmall, ?_⟩
    unfold initEventQueue
    refine (bind_of_ok hderef).trans ((get_bind _ _).trans ?_)
    refine (bind_of_ok (doIf_of_neg hsmall _ _)).trans ?_
    exact Lens.zoom_of_ok hinit

/-- `init_eq` takes nothing. -/
theorem takes_initEventQueue (h : Sound ctx) {eq : PA.ElementPtr} {d : Q.ED Event.EQ_CTX}
    (hat : ((queueEnv eqLens).view ctx).queueAt eq = some d)
    (hsure : Granted D ctx → sure → (d.size + 0xffffffffffffffff) % 2 ^ 64 * Event.EQE_BYTES ≤
      memoryBytes ctx.mem_page_pool.world d.dma_mem) :
    Takes D sure (fun _ => 0) (initEventQueue eq) ctx
      fun _ ctx' => ∃ eqe, ctx' = { ctx with eqe := eqe } := by
  rcases initEventQueue_cases hat with ⟨-, hres⟩ | ⟨hlarge, hres⟩
  · exact takes_of_ok hres (h.grew_notes _ _) ⟨_, rfl⟩
  · exact takes_of_error h hres (fun hnull => (nomatch hnull)) fun hD hs => hlarge (hsure hD hs)

/-- What `create_eq` and `create_cq` have put together before their command: a queue of `size`
entries, and a payload with `header` words in front of the addresses of its pages. -/
structure Prepared (l : Lens (MLX5_Context δ) (Q.State Ctx)) (header size : ℕ)
    (ctx ctx' : MLX5_Context δ) (qo : PA.ElementPtr) (payload : Local) (payload_length : ℕ) :
    Prop where
  size_pos : 0 < size
  length : payload_length = header + Q.pageCount size 64 * 2
  fits : header + Q.pageCount size 64 ≤ 128
  payload_size : payload.size = 128
  queue : ∃ d up uar, ((queueEnv l).view ctx').queueAt qo = some d ∧ d.size = size ∧ d.head = 0 ∧
    d.uarp = some up ∧ ctx'.uar_page_pool.heap.dataAt up = some uar ∧
    payload.word 5 = some (logAndUar (Nat.log2 size) uar.index) ∧
    ∀ j, header ≤ j → payload.word j =
      if j < header + Q.pageCount size 64 then some (d.pas_list.word (j - header)) else none
  pas_overrun : ctx'.pas_overrun = (ctx.pas_overrun ||
    (decide (0 < Q.pageCount size (l.view ctx).pool.data.page_entry_count) ||
      decide (Q.pageCount size (l.view ctx).pool.data.page_entry_count < Q.pageCount size 64)))

/-- A queue that fits in a page, and a type of events that there is. -/
def Small (size : ℕ) (type : Word) : Prop := 0 < size ∧ size ≤ 64 ∧ type.toNat < 64

/-- Whether a queue is small can be evaluated. -/
instance (size : ℕ) (type : Word) : Decidable (Small size type) :=
  inferInstanceAs (Decidable (0 < size ∧ size ≤ 64 ∧ type.toNat < 64))

/-- The memory that has been mapped last. -/
theorem memoryBytes_of_mapped {dma : MEM.Dma} {m : MEM.DmaMem} {bytes : ℕ} {mapped : List MEM.Region}
    (hmapped : dma.mapped = ⟨m.phys, bytes⟩ :: mapped) : memoryBytes dma m = bytes := by
  unfold memoryBytes
  rw [hmapped]
  simp

/-- The memory of a small queue has room for its entries. -/
theorem Small.memory {type : Word} (h : Small size type) {dma : MEM.Dma} {m : MEM.DmaMem}
    {mapped : List MEM.Region} {r : MEM.L4Re} (hr : r.Grants) {count : ℕ} (hcount : 0 < count)
    (hmapped : dma.mapped = ⟨m.phys, r.superpages (Q.queueBytes (Q.pageCount size count))⟩ :: mapped) :
    (size + 0xffffffffffffffff) % 2 ^ 64 * Event.EQE_BYTES ≤ memoryBytes dma m := by
  obtain ⟨hpos, hle, -⟩ := h
  obtain ⟨hone, hcountle⟩ := Q.pageCount_bounds hpos (by omega) hcount
  have hbytes : Q.queueBytes (Q.pageCount size count) = 4096 * Q.pageCount size count := by
    unfold Q.queueBytes HCA_PAGE_SIZE
    exact Nat.mod_eq_of_lt (by omega)
  have hsuper : Q.queueBytes (Q.pageCount size count) ≤
      r.superpages (Q.queueBytes (Q.pageCount size count)) :=
    MEM.le_superpages (by omega) hr.shift_le
  rw [memoryBytes_of_mapped hmapped]
  unfold Event.EQE_BYTES
  omega

/-- A few entries take one page of 64. -/
theorem pageCount_of_small (hpos : 0 < size) (hle : size ≤ 64) : Q.pageCount size 64 = 1 := by
  unfold Q.pageCount
  split_ifs <;> omega

/-- `log2` of a number that is not zero. -/
theorem log2_ok {σ : Type} (h : 0 < size) (s : σ) : log2 size s = .ok (Nat.log2 size) s := by
  unfold log2
  rw [if_neg (Nat.ne_of_gt h)]
  rfl

/-- The UAR page of a queue. -/
theorem QueuePool.uarIndex_ok (hl : QueuePool l p)
    (hat : ((queueEnv l).view ctx).queueAt qo = some d) {up : PA.ElementPtr} {uar : UAR.Uar}
    (hup : d.uarp = some up) (huar : ctx.uar_page_pool.heap.dataAt up = some uar) :
    (queueEnv l).zoom (Q.uarIndex qo) ctx = .ok uar.index ctx := by
  rw [Lens.zoom_of_ok (Q.uarIndex_ok hat hup huar), hl.set_view]

/-- The set of event types is known, or the type is none. -/
theorem eqType_cases (type : Word) (ctx : MLX5_Context δ) :
    (type.toNat < 64 ∧ ∃ mask, Event.eqType type ctx = .ok mask ctx) ∨
      ¬ type.toNat < 64 ∧ Event.eqType type ctx = .error (.undefined .out_of_bounds) ctx := by
  unfold Event.eqType
  by_cases hzero : type = 0
  · rw [if_pos hzero, hzero]
    exact .inl ⟨Nat.succ_pos 63, 0, rfl⟩
  · rw [if_neg hzero]
    by_cases hlt : type.toNat < 64
    · rw [if_pos hlt]
      exact .inl ⟨hlt, _, rfl⟩
    · rw [if_neg hlt]
      exact .inr ⟨hlt, rfl⟩

/-- The payload of `create_eq`. -/
def eqPayload (words : List Word) (pas_list : Buf) (page_count : ℕ) : Local :=
  ((Local.unassigned 128).fill 0 Event.EQI_SIZE fun i => words.getD i 0).fill Event.EQI_SIZE page_count
    pas_list.word

/-- The words of the payload of `create_eq`. -/
theorem eqPayload_word {words : List Word} {pas_list : Buf} {page_count : ℕ} :
    (eqPayload words pas_list page_count).word j =
      if j < Event.EQI_SIZE then some (words.getD j 0)
      else if j < Event.EQI_SIZE + page_count then some (pas_list.word (j - Event.EQI_SIZE))
      else none := by
  unfold eqPayload
  split_ifs with hhead hpas
  · rw [Local.fill_word_of_not (by omega), Local.fill_word_of_lt (Nat.zero_le j) (by omega)]
    rfl
  · exact Local.fill_word_of_lt (by omega) hpas
  · rw [Local.fill_word_of_not (by omega), Local.fill_word_of_not (by omega)]
    rfl

/-- What `create_eq` and `create_cq` have when they start to fill their payload: a queue of `size`
entries with its UAR page and its memory, and the word of its context for the two. -/
structure Started (l : Lens (MLX5_Context δ) (Q.State Ctx)) (size : ℕ) (ctx ctx' : MLX5_Context δ)
    (qo : PA.ElementPtr) (word : Word) : Prop where
  size_pos : 0 < size
  queue : ∃ d up uar, ((queueEnv l).view ctx').queueAt qo = some d ∧ d.size = size ∧ d.head = 0 ∧
    d.uarp = some up ∧ ctx'.uar_page_pool.heap.dataAt up = some uar ∧
    word = logAndUar (Nat.log2 size) uar.index ∧
    d.pas_list.size = Q.pageCount size (l.view ctx).pool.data.page_entry_count ∧
    ∃ mapped, ctx'.mem_page_pool.world.mapped =
      ⟨d.dma_mem.phys, ctx.mem_page_pool.world.services.superpages (Q.queueBytes
        (Q.pageCount size (l.view ctx).pool.data.page_entry_count))⟩ :: mapped
  pas_overrun : ctx'.pas_overrun = (ctx.pas_overrun ||
    decide (0 < Q.pageCount size (l.view ctx).pool.data.page_entry_count))

/-- `create_eq` from the allocation of its queue up to its payload. -/
def finishEq (eq : PA.ElementPtr) (type irq_num : Word) :
    Exec (MLX5_Context δ) (PA.ElementPtr × Event.EQI × ℕ) := do
  eqLens.zoom (PA.storeData (some eq) fun d => { d with q_ctx := ⟨irq_num, type⟩ })
  let el ← eqLens.zoom (PA.derefElement (some eq))
  let page_count := Q.pageCount el.data.size Event.PAGE_EQE_COUNT
  if page_count > (128 - Event.EQI_SIZE) / 2 then throw (.thrown "Event Queue too large!")
  let log_size ← log2 el.data.size
  let uar ← (queueEnv eqLens).zoom (Q.uarIndex eq)
  let eq_type ← Event.eqType el.data.q_ctx.type
  let eqi : Event.EQI := {
    eqc := {
      log_eq_size_and_uar := logAndUar log_size uar
      intr := el.data.q_ctx.irq_num <<< 0 &&& 0x000000ff }
    type := pair ((eq_type >>> 32).setWidth 32) (eq_type.setWidth 32) }
  return (eq, eqi, page_count)

/-- `create_eq` begins with the allocation of the queue. -/
theorem startEq_eq (size : ℕ) (type irq_num : Word) :
    (startEq size type irq_num : Exec (MLX5_Context δ) _) =
      (queueEnv eqLens).zoom (Q.allocQueue size) >>= fun eq => finishEq eq type irq_num := rfl

/-- It enters its context in the queue. Then it refuses a large queue, or comes to what C++ does not
define, or to its payload. -/
theorem finishEq_cases (h : Sound ctx) {eq up : PA.ElementPtr} {d : Q.ED Event.EQ_CTX} {uar : UAR.Uar}
    (hat : ((queueEnv eqLens).view ctx).queueAt eq = some d) (hup : d.uarp = some up)
    (huar : ctx.uar_page_pool.heap.dataAt up = some uar) (type irq_num : Word) :
    ∃ ctx', (Grew ctx ctx' fun _ => 0) ∧
      (queueEnv eqLens).view ctx' =
        ((queueEnv eqLens).view ctx).setQueue eq { d with q_ctx := ⟨irq_num, type⟩ } ∧
      ((31 < Q.pageCount d.size 64 ∧
          finishEq eq type irq_num ctx = .error (.thrown "Event Queue too large!") ctx') ∨
        (Q.pageCount d.size 64 ≤ 31 ∧ ¬ (0 < d.size ∧ type.toNat < 64) ∧ ∃ ub, ub ≠ .null_deref ∧
          finishEq eq type irq_num ctx = .error (.undefined ub) ctx') ∨
        (Q.pageCount d.size 64 ≤ 31 ∧ 0 < d.size ∧ type.toNat < 64 ∧ ∃ eqi : Event.EQI,
          eqi.words.getD 5 0 = logAndUar (Nat.log2 d.size) uar.index ∧
          finishEq eq type irq_num ctx = .ok (eq, eqi, Q.pageCount d.size 64) ctx')) := by
  obtain ⟨ctx', hstore, hgrew, hview⟩ := eqLens_pool.store_ok h hat
    fun d => { d with q_ctx := ⟨irq_num, type⟩ }
  refine ⟨ctx', hgrew, hview, ?_⟩
  let d' : Q.ED Event.EQ_CTX := { d with q_ctx := ⟨irq_num, type⟩ }
  have hat' : ((queueEnv eqLens).view ctx').queueAt eq = some d' := by
    rw [hview]
    exact Q.Env.queueAt_setQueue hat
  have huar' : ctx'.uar_page_pool.heap.dataAt up = some uar :=
    (congrArg (fun e => e.uar_page_pool.heap.dataAt up) hview).trans huar
  obtain ⟨el, hderef, hel⟩ := eqLens_pool.deref_ok hat'
  -- It starts by writing the context and reading it again.
  have hrun : finishEq eq type irq_num ctx = _ := (bind_of_ok hstore).trans (bind_of_ok hderef)
  rw [hel] at hrun
  dsimp only at hrun
  by_cases hlarge : Q.pageCount d.size Event.PAGE_EQE_COUNT > (128 - Event.EQI_SIZE) / 2
  · rw [if_pos hlarge] at hrun
    exact .inl ⟨hlarge, hrun⟩
  rw [if_neg hlarge] at hrun
  have hle : Q.pageCount d.size 64 ≤ 31 := Nat.le_of_not_lt hlarge
  rcases Nat.eq_zero_or_pos d.size with hzero | hpos
  · -- Zero has no logarithm that is a number.
    have hlog : (log2 d.size : Exec (MLX5_Context δ) ℕ) ctx' =
        .error (.undefined .bad_conversion) ctx' := by
      unfold log2
      rw [if_pos hzero]
      rfl
    have hnot : ¬ (0 < d.size ∧ type.toNat < 64) := fun h => Nat.ne_of_gt h.1 hzero
    exact .inr (.inl ⟨hle, hnot, .bad_conversion, nofun, hrun.trans (bind_of_error hlog)⟩)
  -- What is left is the set of event types, which has no bit for a type of 64 or more.
  have hrun' := hrun.trans ((bind_of_ok (log2_ok hpos _)).trans
    (bind_of_ok (eqLens_pool.uarIndex_ok hat' hup huar')))
  rcases eqType_cases type ctx' with ⟨hlt, mask, hmask⟩ | ⟨hnot, herr⟩
  · exact .inr (.inr ⟨hle, hpos, hlt, _, rfl, hrun'.trans (bind_of_ok hmask)⟩)
  · exact .inr (.inl ⟨hle, fun h => hnot h.2, .out_of_bounds, nofun, hrun'.trans (bind_of_error herr)⟩)

/-- `create_eq` up to its payload. -/
theorem takes_startEq (D : CMD.HCA δ) (h : Sound ctx) (size : ℕ) (type irq_num : Word) :
    Takes D (Small size type) (queueNeeds .event) (startEq size type irq_num) ctx fun r ctx' =>
      Started eqLens size ctx ctx' r.1 (r.2.1.words.getD 5 0) ∧ r.2.2 = Q.pageCount size 64 ∧
        r.2.2 ≤ 31 := by
  have halloc := eqLens_pool.takes_allocQueue (by decide) D h size
  rw [startEq_eq]
  refine Takes.and_then (halloc.mono (fun _ => trivial) fun _ _ h => h) ?_
  rintro eq ctx₁ hgrew ⟨e, hctx, halloc⟩
  -- The queue has its object, its UAR page and its memory.
  obtain ⟨d, up, m, uar, hat, huar, hmapped, -⟩ := halloc.data
  have hview : (queueEnv eqLens).view ctx₁ = e := by rw [hctx, eqLens_pool.view_set]
  rw [← hview] at hat hmapped huar
  generalize hn : Q.pageCount size ((queueEnv eqLens).view ctx).qop.pool.data.page_entry_count = n
    at hat hmapped
  let d₁ : Q.ED Event.EQ_CTX := (d.claim up size).fill m n ctx.uninit
  have hat₁ : ((queueEnv eqLens).view ctx₁).queueAt eq = some d₁ := hat
  have hup : d₁.uarp = some up := rfl
  obtain ⟨ctx₂, hgrew₂, hview₂, hcases⟩ :=
    finishEq_cases hgrew.sound hat₁ hup huar type irq_num
  rcases hcases with ⟨hlarge, hres⟩ | ⟨-, hnot, ub, hub, hres⟩ | ⟨hle, hpos, -, eqi, hword, hres⟩
  · -- A small queue is not too large,
    refine takes_of_error hgrew.sound hres (fun hnull => (nomatch hnull)) fun _ hsmall => ?_
    rw [show Q.pageCount d₁.size 64 = 1 from pageCount_of_small hsmall.1 hsmall.2.1] at hlarge
    exact absurd hlarge (by decide)
  · -- and has a logarithm and a type of events that there is.
    refine takes_of_error hgrew.sound hres (fun hnull => hub (Stop.undefined.inj hnull)) ?_
    exact fun _ hsmall => hnot ⟨hsmall.1, hsmall.2.2⟩
  refine takes_of_ok hres hgrew₂ ⟨?_, rfl, hle⟩
  exact {
    size_pos := hpos
    queue := by
      -- Nothing but its context has changed since it was allocated.
      have hat₂ : ((queueEnv eqLens).view ctx₂).queueAt eq =
          some { d₁ with q_ctx := ⟨irq_num, type⟩ } := by
        rw [hview₂]
        exact Q.Env.queueAt_setQueue hat
      have huar₂ : ctx₂.uar_page_pool.heap.dataAt up = some uar :=
        (congrArg (fun e => e.uar_page_pool.heap.dataAt up) hview₂).trans huar
      refine ⟨_, up, uar, hat₂, rfl, rfl, rfl, huar₂, hword, ?_,
        ctx.mem_page_pool.world.mapped, ?_⟩
      · exact (Q.pasList_size n).trans hn.symm
      · have hmapped₂ := (congrArg (fun e => e.dma.mapped) hview₂).trans hmapped
        rw [← hn] at hmapped₂
        exact hmapped₂
    pas_overrun := by
      have hflag₂ : ctx₂.pas_overrun = ctx₁.pas_overrun := congrArg Q.Env.pas_overrun hview₂
      rw [hflag₂]
      exact (congrArg Q.Env.pas_overrun hview).trans halloc.pas_overrun }

/-- The loops of `create_eq` on a payload that has room for the addresses. -/
theorem fillEq_ok {eq : PA.ElementPtr} {d : Q.ED Event.EQ_CTX}
    (hat : ((queueEnv eqLens).view ctx).queueAt eq = some d) (eqi : Event.EQI)
    (h : Event.EQI_SIZE + n ≤ 128) :
    fillEq eq eqi n ctx = .ok (eqPayload eqi.words d.pas_list n)
      (noteOverrun ctx (decide (d.pas_list.size < n))) := by
  have hroom : 0 + Event.EQI_SIZE ≤ (Local.unassigned 128).size := by decide
  have hwords := copyWord_loop eqi.words hroom ctx
  unfold fillEq
  exact (bind_of_ok hwords).trans (eqLens_pool.copyPas_loop hat h)

/-- `create_eq` up to its command. -/
theorem takes_prepareEq (D : CMD.HCA δ) (h : Sound ctx) (size : ℕ) (type irq_num : Word) :
    Takes D (Small size type) (queueNeeds .event) (prepareEq size type irq_num) ctx fun r ctx' =>
      Prepared eqLens Event.EQI_SIZE size ctx ctx' r.1 r.2.1 r.2.2 ∧
        (∀ j, j < Event.EQI_SIZE → ∃ u, r.2.1.word j = some u) ∧ r.2.2 ≤ 128 := by
  unfold prepareEq
  refine (takes_startEq D h size type irq_num).and_then ?_
  rintro ⟨eq, eqi, page_count⟩ ctx₁ hgrew ⟨hstarted, hcount, hle⟩
  dsimp only at hcount hle
  obtain ⟨d, up, uar, hat, hsize, hhead, hup, huar, hword, hpas, mapped, hmapped⟩ := hstarted.queue
  -- The addresses fit into the payload, since at most 31 pages are accepted.
  have hfits : Event.EQI_SIZE + page_count ≤ 128 := by
    unfold Event.EQI_SIZE
    omega
  refine Takes.bind_of_ok (fillEq_ok hat eqi hfits) (hgrew.sound.grew_notes _ _) ?_
  have hgrew₂ := hgrew.sound.grew_notes ctx₁.eqe
    (ctx₁.pas_overrun || decide (d.pas_list.size < page_count))
  refine Takes.and_then (takes_initEventQueue hgrew₂.sound (d := d) hat fun hD hsmall => ?_) ?_
  · -- A small queue fits into the memory that the kernel has granted.
    have hgrants := hD.2
    rw [(hgrew.trans hgrew₂).services] at hgrants
    rw [hsize]
    exact hsmall.memory hgrants (eqLens_pool.page_entry_count ctx h) hmapped
  rintro u ctx₄ hgrew₄ ⟨eqe, rfl⟩
  refine takes_of_ok rfl hgrew₄.sound.grew_zero ⟨?_, fun j hj => ?_, ?_⟩
  · subst hcount
    exact {
      size_pos := hstarted.size_pos
      length := rfl
      fits := hfits
      payload_size := rfl
      queue := by
        refine ⟨d, up, uar, hat, hsize, hhead, hup, huar, ?_, fun j hj => ?_⟩
        · rw [← hword]
          exact eqPayload_word
        · exact eqPayload_word.trans (if_neg (Nat.not_lt_of_le hj))
      pas_overrun := by
        -- The list is overrun if `alloc_queue` has overrun it, or if it has fewer words than are copied.
        show (ctx₁.pas_overrun || decide (d.pas_list.size < _)) = _
        rw [hpas, hstarted.pas_overrun, Bool.or_assoc] }
  · exact ⟨_, eqPayload_word.trans (if_pos hj)⟩
  · show Event.EQI_SIZE + page_count * 2 ≤ 128
    unfold Event.EQI_SIZE
    omega

/-! ## Completion queues -/

/-- The payload of `create_cq`, which leaves out the elements between the context and the
addresses. -/
def cqPayload (words : List Word) (pas_list : Buf) (page_count : ℕ) : Local :=
  (((Local.unassigned 128).fill 0 2 fun _ => 0).fill 2 CQ.CQC_SIZE fun i => words.getD i 0).fill
    CQ.HEADER_SIZE page_count pas_list.word

/-- The words of the payload of `create_cq`. -/
theorem cqPayload_word {words : List Word} {pas_list : Buf} {page_count : ℕ} :
    (cqPayload words pas_list page_count).word j =
      if j < 2 then some 0
      else if j < 2 + CQ.CQC_SIZE then some (words.getD (j - 2) 0)
      else if j < CQ.HEADER_SIZE then none
      else if j < CQ.HEADER_SIZE + page_count then some (pas_list.word (j - CQ.HEADER_SIZE))
      else none := by
  have hcqc : CQ.CQC_SIZE = 16 := rfl
  have hheader : CQ.HEADER_SIZE = 42 := rfl
  unfold cqPayload
  split_ifs with hfirst hcontext hgap hpas
  · rw [Local.fill_word_of_not (by omega), Local.fill_word_of_not (by omega),
      Local.fill_word_of_lt (Nat.zero_le j) (by omega)]
  · rw [Local.fill_word_of_not (by omega), Local.fill_word_of_lt (by omega) hcontext]
  · rw [Local.fill_word_of_not (by omega), Local.fill_word_of_not (by omega),
      Local.fill_word_of_not (by omega)]
    rfl
  · exact Local.fill_word_of_lt (by omega) hpas
  · rw [Local.fill_word_of_not (by omega), Local.fill_word_of_not (by omega),
      Local.fill_word_of_not (by omega)]
    rfl

/-- The logarithm is cut to 8 bits, of which the field has 5. -/
theorem logAndUar_mod (log_size uar : ℕ) : logAndUar (log_size % 2 ^ 8) uar = logAndUar log_size uar := by
  have hlog : BitVec.ofNat 32 (log_size % 2 ^ 8) <<< 24 = BitVec.ofNat 32 log_size <<< 24 := by
    apply BitVec.eq_of_toNat_eq
    simp only [BitVec.toNat_shiftLeft, BitVec.toNat_ofNat, Nat.shiftLeft_eq]
    omega
  unfold logAndUar
  rw [hlog]

/-- `create_cq` from the allocation of its queue up to its payload. -/
theorem takes_startCq (D : CMD.HCA δ) (h : Sound ctx) (phys : ℕ) (eq_number : Word) (size : ℕ) :
    Takes D (0 < size) (queueNeeds .compl) (startCq phys eq_number size) ctx fun r ctx' =>
      Started cqLens size ctx ctx' r.1 (r.2.1.words.getD 3 0) ∧ r.2.2 = Q.pageCount size 64 := by
  have halloc := cqLens_pool.takes_allocQueue (by decide) D h size
  unfold startCq
  refine Takes.and_then (halloc.mono (fun _ => trivial) fun _ _ h => h) ?_
  rintro cq ctx₁ hgrew ⟨e, hctx, halloc⟩
  obtain ⟨d, up, m, uar, hat, huar, hmapped, -⟩ := halloc.data
  have hview : (queueEnv cqLens).view ctx₁ = e := by rw [hctx, cqLens_pool.view_set]
  rw [← hview] at hat huar hmapped
  have hsound := hgrew.sound
  rcases Nat.eq_zero_or_pos size with hzero | hpos
  · have hlog : (log2 size : Exec (MLX5_Context δ) ℕ) ctx₁ =
        .error (.undefined .bad_conversion) ctx₁ := by
      unfold log2
      rw [if_pos hzero]
      rfl
    exact takes_of_error hsound (bind_of_error hlog) (fun hnull => (nomatch hnull)) fun _ hpos =>
      Nat.ne_of_gt hpos hzero
  refine Takes.bind_of_ok (log2_ok hpos ctx₁) hsound.grew_zero ?_
  refine takes_of_ok (bind_of_ok (cqLens_pool.uarIndex_ok hat rfl huar)) hsound.grew_zero ⟨?_, rfl⟩
  exact {
    size_pos := hpos
    queue := by
      refine ⟨_, up, uar, hat, rfl, rfl, rfl, huar, logAndUar_mod _ _, ?_, _, hmapped⟩
      exact Q.pasList_size _
    pas_overrun := (congrArg Q.Env.pas_overrun hview).trans halloc.pas_overrun }

/-- The assignments and the first loop of `create_cq`. -/
theorem fillCq_eq (cq : PA.ElementPtr) (cqc : CQ.CQC) (n : ℕ) (ctx : MLX5_Context δ) :
    fillCq cq cqc n ctx = forRange n (((Local.unassigned 128).fill 0 2 fun _ => 0).fill 2 CQ.CQC_SIZE
      fun i => cqc.words.getD i 0) (copyPas cqLens cq CQ.HEADER_SIZE) ctx := by
  have hwrite₀ := @Local.fill_write (.unassigned 128) 0 0 (fun _ => 0) _ (by decide) ctx
  have hwrite₁ := @Local.fill_write (.unassigned 128) 0 1 (fun _ => 0) _ (by decide) ctx
  rw [Local.fill_zero] at hwrite₀
  unfold fillCq
  refine (bind_of_ok hwrite₀).trans ((bind_of_ok hwrite₁).trans ?_)
  exact bind_of_ok (copyWord_loop _ (by decide) ctx)

/-- The loops of `create_cq` on a payload that has room for the addresses. -/
theorem fillCq_ok {cq : PA.ElementPtr} {d : Q.ED CQ.CQ_CTX}
    (hat : ((queueEnv cqLens).view ctx).queueAt cq = some d) (cqc : CQ.CQC)
    (h : CQ.HEADER_SIZE + n ≤ 128) :
    fillCq cq cqc n ctx = .ok (cqPayload cqc.words d.pas_list n)
      (noteOverrun ctx (decide (d.pas_list.size < n))) :=
  (fillCq_eq cq cqc n ctx).trans (cqLens_pool.copyPas_loop hat h)

/-- The loops write beyond a payload that has no room for them. -/
theorem fillCq_overflow {cq : PA.ElementPtr} {d : Q.ED CQ.CQ_CTX}
    (hat : ((queueEnv cqLens).view ctx).queueAt cq = some d) (cqc : CQ.CQC)
    (h : 128 < CQ.HEADER_SIZE + n) :
    ∃ ctx', fillCq cq cqc n ctx = .error (.undefined .out_of_bounds) ctx' := by
  rw [fillCq_eq]
  exact cqLens_pool.copyPas_overflow hat (Nat.le_of_ble_eq_true rfl) h

/-- `create_cq` from the allocation of its queue up to its command. -/
theorem takes_prepareCq (D : CMD.HCA δ) (h : Sound ctx) (phys : ℕ) (eq_number : Word) (size : ℕ) :
    Takes D (0 < size ∧ CQ.HEADER_SIZE + Q.pageCount size CQ.PAGE_CQE_COUNT ≤ 128)
      (queueNeeds .compl) (prepareCq phys eq_number size) ctx fun r ctx' =>
      Prepared cqLens CQ.HEADER_SIZE size ctx ctx' r.1 r.2.1 r.2.2 ∧
        ∀ j, 2 + CQ.CQC_SIZE ≤ j → j < CQ.HEADER_SIZE → r.2.1.word j = none := by
  unfold prepareCq
  refine ((takes_startCq D h phys eq_number size).mono (fun hsure => hsure.1) fun _ _ h => h).and_then ?_
  rintro ⟨cq, cqc, page_count⟩ ctx₁ hgrew ⟨hstarted, hcount⟩
  dsimp only at hcount
  subst hcount
  obtain ⟨d, up, uar, hat, hsize, hhead, hup, huar, hword, hpas, -⟩ := hstarted.queue
  rcases Nat.lt_or_ge 128 (CQ.HEADER_SIZE + Q.pageCount size CQ.PAGE_CQE_COUNT) with hlarge | hfits
  · -- There is no check: the addresses of a large queue do not fit into the payload.
    obtain ⟨ctx', hover⟩ := fillCq_overflow hat cqc hlarge
    exact takes_of_error hgrew.sound (bind_of_error hover) (fun hnull => (nomatch hnull))
      fun _ hsure => Nat.not_lt_of_le hsure.2 hlarge
  refine takes_of_ok ((bind_of_ok (fillCq_ok hat cqc hfits)).trans rfl) (hgrew.sound.grew_notes _ _)
    ⟨?_, fun j hle hlt => ?_⟩
  · exact {
      size_pos := hstarted.size_pos
      length := by
        -- The length does not wrap.
        have hlt : CQ.HEADER_SIZE + Q.pageCount size 64 * 2 < 2 ^ 32 := by
          have hle : CQ.HEADER_SIZE + Q.pageCount size 64 ≤ 128 := hfits
          omega
        exact Nat.mod_eq_of_lt hlt
      fits := hfits
      payload_size := rfl
      queue := by
        refine ⟨d, up, uar, hat, hsize, hhead, hup, huar, ?_, fun j hj => ?_⟩
        · rw [← hword]
          exact cqPayload_word
        · -- The words between the context and the addresses are never written.
          refine cqPayload_word.trans ?_
          have hge : 2 + CQ.CQC_SIZE ≤ j := Nat.le_trans (by decide) hj
          rw [if_neg (by omega), if_neg (Nat.not_lt_of_le hge), if_neg (Nat.not_lt_of_le hj)]
          rfl
      pas_overrun := by
        show (ctx₁.pas_overrun || decide (d.pas_list.size < _)) = _
        rw [hpas, hstarted.pas_overrun, Bool.or_assoc]
        rfl }
  · refine cqPayload_word.trans ?_
    rw [if_neg (by omega), if_neg (by omega), if_pos hlt]

/-! ## What the device is told about the pages of a queue -/

/-- Every word of a payload has been assigned, and the last ones are the addresses of the pages of a
queue's memory, in order, each in two halves. -/
structure Complete (payload : Local) (payload_length page_count : ℕ) (m : MEM.DmaMem) : Prop where
  assigned : ∀ j, j < payload_length → ∃ u, payload.word j = some u
  pages : ∀ i, i < page_count →
    payload.word (payload_length - page_count * 2 + i * 2) =
      some (msb (m.phys + i * HCA_PAGE_SIZE)) ∧
    payload.word (payload_length - page_count * 2 + i * 2 + 1) =
      some (lsb (m.phys + i * HCA_PAGE_SIZE))

variable {header payload_length : ℕ} {payload : Local}

/-- Half of the words that the addresses need are copied, so the last of them is not assigned. -/
theorem Prepared.not_complete (h : Prepared l header size ctx ctx' qo payload payload_length)
    (hpos : 0 < Q.pageCount size 64) (m : MEM.DmaMem) :
    ¬ Complete payload payload_length (Q.pageCount size 64) m := by
  intro hcomplete
  obtain ⟨d, up, uar, -, -, -, -, -, -, hword⟩ := h.queue
  have hlength := h.length
  obtain ⟨u, hu⟩ := hcomplete.assigned (payload_length - 1) (by omega)
  have hnone : payload.word (payload_length - 1) = none := by
    rw [hword _ (by omega), if_neg (by omega)]
  rw [hnone] at hu
  cases hu

/-- When the number of pages comes out as zero, the header is the whole payload. -/
theorem Prepared.complete_of_noPages (h : Prepared l header size ctx ctx' qo payload payload_length)
    (hheader : ∀ j, j < header → ∃ u, payload.word j = some u) (hzero : Q.pageCount size 64 = 0)
    (m : MEM.DmaMem) : Complete payload payload_length (Q.pageCount size 64) m where
  assigned j hj := by
    have hlength := h.length
    exact hheader j (by omega)
  pages i hi := by omega

/-- What `create_eq` hands over is complete only when the number of pages, as a 32-bit number, is
zero, and so no address is due. What `create_cq` hands over never is, since it also leaves out
words of the header. -/
theorem complete_iff_noPages (h : Sound ctx) (size : ℕ) :
    (∀ type irq_num eq payload payload_length ctx',
      prepareEq size type irq_num ctx = .ok (eq, payload, payload_length) ctx' →
      ∃ d, ((queueEnv eqLens).view ctx').queueAt eq = some d ∧
        (Complete payload payload_length (Q.pageCount size Event.PAGE_EQE_COUNT) d.dma_mem ↔
          Q.pageCount size Event.PAGE_EQE_COUNT = 0)) ∧
    (∀ phys eq_number cq payload payload_length ctx',
      prepareCq phys eq_number size ctx = .ok (cq, payload, payload_length) ctx' →
      ∃ d, ((queueEnv cqLens).view ctx').queueAt cq = some d ∧
        ¬ Complete payload payload_length (Q.pageCount size CQ.PAGE_CQE_COUNT) d.dma_mem) := by
  constructor
  · intro type irq_num eq payload payload_length ctx' hres
    obtain ⟨-, hprep, hheader, -⟩ := (takes_prepareEq (still δ) h size type irq_num).1 _ _ hres
    obtain ⟨d, -, -, hat, -⟩ := hprep.queue
    refine ⟨d, hat, fun hcomplete => ?_, fun hzero => ?_⟩
    · by_contra hne
      exact hprep.not_complete (Nat.pos_of_ne_zero hne) d.dma_mem hcomplete
    · exact hprep.complete_of_noPages hheader hzero d.dma_mem
  · intro phys eq_number cq payload payload_length ctx' hres
    obtain ⟨-, hprep, hgap⟩ := (takes_prepareCq (still δ) h phys eq_number size).1 _ _ hres
    obtain ⟨d, -, -, hat, -⟩ := hprep.queue
    refine ⟨d, hat, fun hcomplete => ?_⟩
    -- The first word after the context is not assigned, whatever the number of pages.
    have hlength : payload_length = CQ.HEADER_SIZE + Q.pageCount size 64 * 2 := hprep.length
    have hheader : 2 + CQ.CQC_SIZE < CQ.HEADER_SIZE := by decide
    obtain ⟨u, hu⟩ := hcomplete.assigned (2 + CQ.CQC_SIZE) (by omega)
    have hnone : payload.word (2 + CQ.CQC_SIZE) = none := hgap _ (Nat.le_refl _) hheader
    rw [hnone] at hu
    cases hu

/-- `create_eq` of a small queue at the start comes to its command. -/
theorem prepareEq_start (size : ℕ) (type irq_num : Word) (h : Small size type) :
    ∃ eq payload payload_length ctx',
      prepareEq size type irq_num startContext = .ok (eq, payload, payload_length) ctx' ∧
        Prepared eqLens Event.EQI_SIZE size startContext ctx' eq payload payload_length := by
  obtain ⟨⟨eq, payload, payload_length⟩, ctx', hres, -, hprep, -⟩ :=
    (takes_prepareEq (still Unit) startContext_sound size type irq_num).returns (granted_still _) h
      (startContext_room fun p => by cases p <;> exact Nat.le_of_ble_eq_true rfl)
  exact ⟨eq, payload, payload_length, ctx', hres, hprep⟩

/-- `create_cq` of a queue of one page comes to its command as well. -/
theorem prepareCq_start (phys : ℕ) (eq_number : Word) (size : ℕ) (hpos : 0 < size) (hle : size ≤ 64) :
    ∃ cq payload payload_length ctx',
      prepareCq phys eq_number size startContext = .ok (cq, payload, payload_length) ctx' ∧
        Prepared cqLens CQ.HEADER_SIZE size startContext ctx' cq payload payload_length := by
  have hone : Q.pageCount size 64 = 1 := pageCount_of_small hpos hle
  have hfits : CQ.HEADER_SIZE + Q.pageCount size CQ.PAGE_CQE_COUNT ≤ 128 := by
    rw [show Q.pageCount size CQ.PAGE_CQE_COUNT = 1 from hone]
    decide
  obtain ⟨⟨cq, payload, payload_length⟩, ctx', hres, -, hprep, -⟩ :=
    (takes_prepareCq (still Unit) startContext_sound phys eq_number size).returns (granted_still _)
      ⟨hpos, hfits⟩ (startContext_room fun p => by cases p <;> exact Nat.le_of_ble_eq_true rfl)
  exact ⟨cq, payload, payload_length, ctx', hres, hprep⟩

/-- The queues of four entries that the driver creates. -/
theorem fourEntries_complete_iff :
    (∃ eq payload payload_length ctx' d,
      prepareEq 4 0 0 startContext = .ok (eq, payload, payload_length) ctx' ∧
        ((queueEnv eqLens).view ctx').queueAt eq = some d ∧
        (Complete payload payload_length (Q.pageCount 4 Event.PAGE_EQE_COUNT) d.dma_mem ↔
          Q.pageCount 4 Event.PAGE_EQE_COUNT = 0)) ∧
    ∃ cq payload payload_length ctx' d,
      prepareCq 4096 0 4 startContext = .ok (cq, payload, payload_length) ctx' ∧
        ((queueEnv cqLens).view ctx').queueAt cq = some d ∧
        ¬ Complete payload payload_length (Q.pageCount 4 CQ.PAGE_CQE_COUNT) d.dma_mem := by
  constructor
  · obtain ⟨eq, payload, payload_length, ctx', hres, -⟩ :=
      prepareEq_start 4 0 0 (by decide)
    obtain ⟨d, hat, hiff⟩ := (complete_iff_noPages startContext_sound 4).1 _ _ _ _ _ _ hres
    exact ⟨eq, payload, payload_length, ctx', d, hres, hat, hiff⟩
  · obtain ⟨cq, payload, payload_length, ctx', hres, -⟩ :=
      prepareCq_start 4096 0 4 (by decide) (by decide)
    obtain ⟨d, hat, hnot⟩ := (complete_iff_noPages startContext_sound 4).2 _ _ _ _ _ _ hres
    exact ⟨cq, payload, payload_length, ctx', d, hres, hat, hnot⟩

/-- For an event queue of four entries, the last word that is handed over is whatever was on the
stack. -/
theorem fourEntries_not_complete :
    ∃ eq payload ctx', prepareEq 4 0 0 startContext = .ok (eq, payload, 68) ctx' ∧
      payload.word 67 = none ∧ ∀ m, ¬ Complete payload 68 (Q.pageCount 4 Event.PAGE_EQE_COUNT) m := by
  obtain ⟨eq, payload, payload_length, ctx', hres, hprep⟩ :=
    prepareEq_start 4 0 0 (by decide)
  have hone : Q.pageCount 4 64 = 1 := rfl
  obtain rfl : payload_length = 68 := hprep.length
  obtain ⟨d, up, uar, -, -, -, -, -, -, hword⟩ := hprep.queue
  have hlast : payload.word 67 = none := (hword 67 (by decide)).trans (if_neg (by decide))
  exact ⟨eq, payload, ctx', hres, hlast, hprep.not_complete Nat.one_pos⟩

end Driver

end L4Rdma
