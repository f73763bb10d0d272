import L4Rdma.Cmd.Call
import L4Rdma.Event.Ring
import L4Rdma.Pool.Pages
import L4Rdma.Pool.Uar

/-!
# The driver

`server/src/driver.cc`, and `Event::destroy_eq` in `server/src/event.cc`: what the driver does with
the memory pages that the device asks for and gives back, and with the event queues when it shuts
the device down. These functions use the pools and the command layer together.
-/

namespace L4Rdma

open Lib Device

/-- What the pool of event queues keeps behind `q_ctx`. -/
structure Event.EQ_CTX where
  irq_num : Word
  type : Word

/-- What the pool of completion queues keeps behind `q_ctx`. -/
structure CQ.CQ_CTX where
  eq_number : Word

/-- The work queue context. -/
structure WQ.WQC where
  type : Word
  page_offset_and_lwm : Word
  pd : Word
  uar : Word
  dbr : Fin 2 → Word
  hw_counter : Word
  sw_counter : Word
  log_wq_sizes : Word

/-- What the pool of work queues keeps behind `q_ctx`. -/
structure WQ.WQ_CTX where
  wqc : WQ.WQC

namespace Driver

/-- The number of words of a list of pages. -/
abbrev IMB_MAX_PAGE_PAYLOAD : ℕ := 2 + CMD.IMB_MAX_DATA

/-- `DESTROY_EQ_OUTPUT_LENGTH`. -/
abbrev DESTROY_EQ_OUTPUT_LENGTH : ℕ := 2

/-- Main context for all operations on the HCA. -/
structure MLX5_Context (δ : Type) where
  /-- The command arguments, with the device behind them. -/
  hca : CMD.World δ
  /-- The pool of memory pages. Its world is the DMA space, which the queues use as well. -/
  mem_page_pool : MEM.State
  uar_page_pool : UAR.State Unit
  event_queue_pool : Q.State Event.EQ_CTX
  compl_queue_pool : Q.State CQ.CQ_CTX
  work_queue_pool : Q.State WQ.WQ_CTX
  /-- The entries in the memory of each event queue. -/
  eqe : PA.ElementPtr → ℕ → Event.EQE
  /-- What a local array, or memory from `malloc`, contains before anything is written to it. -/
  uninit : ℕ → Word
  /-- Whether an array of page addresses has been accessed at an index that it does not have. -/
  pas_overrun : Bool
  /-- The page requests that have been read: how many commands the device had seen then, and the number of
  pages. Nothing in the driver depends on this record. -/
  requests : List (ℕ × ℤ)

variable {δ : Type}

/-! ## The parts of the context -/

/-- The command arguments and the device. -/
def hcaLens : Lens (MLX5_Context δ) (CMD.World δ) where
  view := MLX5_Context.hca
  set w ctx := { ctx with hca := w }

/-- The command arguments. -/
def argsLens : Lens (MLX5_Context δ) CMD.CMD_Args where
  view ctx := ctx.hca.args
  set a ctx := { ctx with hca := { ctx.hca with args := a } }

/-- The pool of memory pages. -/
def memLens : Lens (MLX5_Context δ) MEM.State where
  view := MLX5_Context.mem_page_pool
  set s ctx := { ctx with mem_page_pool := s }

/-- The DMA space. -/
def dmaLens : Lens (MLX5_Context δ) MEM.Dma where
  view ctx := ctx.mem_page_pool.world
  set d ctx := { ctx with mem_page_pool := { ctx.mem_page_pool with world := d } }

/-- The pool of UAR pages. -/
def uarLens : Lens (MLX5_Context δ) (UAR.State Unit) where
  view := MLX5_Context.uar_page_pool
  set s ctx := { ctx with uar_page_pool := s }

/-- The pool of event queues. -/
def eqLens : Lens (MLX5_Context δ) (Q.State Event.EQ_CTX) where
  view := MLX5_Context.event_queue_pool
  set s ctx := { ctx with event_queue_pool := s }

/-- The pool of completion queues. -/
def cqLens : Lens (MLX5_Context δ) (Q.State CQ.CQ_CTX) where
  view := MLX5_Context.compl_queue_pool
  set s ctx := { ctx with compl_queue_pool := s }

/-- The pool of work queues. -/
def wqLens : Lens (MLX5_Context δ) (Q.State WQ.WQ_CTX) where
  view := MLX5_Context.work_queue_pool
  set s ctx := { ctx with work_queue_pool := s }

/-- The result of a signed 32-bit operation, `l4_int32_t`. -/
def int32 {σ : Type} (n : ℤ) : Exec σ ℤ :=
  if -2 ^ 31 ≤ n ∧ n < 2 ^ 31 then pure n else throw (.undefined .signed_overflow)

/-- `std::abs`. -/
def abs {σ : Type} (n : ℤ) : Exec σ ℤ := if n < 0 then int32 (-n) else pure n

/-! ## Providing pages -/

/-- How many times to run MANAGE_PAGES. -/
def cmdCount (page_count : ℕ) : ℕ :=
  let words := page_count * 2 % 2 ^ 32
  if words % CMD.IMB_MAX_DATA ≠ 0 then words / CMD.IMB_MAX_DATA + 1 else words / CMD.IMB_MAX_DATA

/-- The number of pages in command `i`. -/
def payloadPageCount (page_count i : ℕ) : ℕ :=
  let remainder := page_count * 2 % 2 ^ 32 % CMD.IMB_MAX_DATA
  if i = cmdCount page_count - 1 then
    if remainder ≠ 0 then remainder / 2 else CMD.IMB_MAX_DATA / 2
  else CMD.IMB_MAX_DATA / 2

/-- One round of the inner loop of `provide_pages`: the address of a new page. -/
def providePage (j : ℕ) (page_payload : Buf) : Exec (MLX5_Context δ) Buf := do
  let mp ← memLens.zoom MEM.allocPage
  let blk ← memLens.zoom (PA.deref (some mp.block))
  let phys := (blk.start mp.index).data.phys
  let page_payload ← page_payload.write (2 + j * 2) (msb phys)
  page_payload.write (2 + j * 2 + 1) (lsb phys)

/-- One round of the outer loop of `provide_pages`: one command. -/
def provideBatch (D : CMD.HCA δ) (page_count i : ℕ) (page_payload : Buf) :
    Exec (MLX5_Context δ) Buf := do
  let payload_page_count := payloadPageCount page_count i
  let payload_length := 2 + payload_page_count * 2
  let page_payload ← page_payload.write 0 0
  let page_payload ← page_payload.write 1 (BitVec.ofNat 32 payload_page_count)
  let page_payload ← forRange payload_page_count page_payload providePage
  let _ ← hcaLens.zoom (CMD.issue D .MANAGE_PAGES 0x1 page_payload payload_length 2)
  return page_payload

/-- `provide_pages`. -/
def providePages (D : CMD.HCA δ) (page_count : ℕ) : Exec (MLX5_Context δ) Unit := do
  let ctx ← get
  let page_payload : Buf := ⟨IMB_MAX_PAGE_PAYLOAD, ctx.uninit⟩
  let _ ← forRange (cmdCount page_count) page_payload (provideBatch D page_count)
  return ()

/-! ## Reclaiming pages -/

/-- One round of the loop of `reclaim_pages`: frees the page whose address is in the output. -/
def reclaimPage (output : Buf) (i : ℕ) (_ : Unit) : Exec (MLX5_Context δ) Unit := do
  let phys_msb ← output.read (2 + i * 2)
  let phys_lsb ← output.read (2 + i * 2 + 1)
  memLens.zoom (MEM.freePage (address phys_msb phys_lsb))

/-- The length of the output that `reclaim_pages` asks for. It is computed with signed numbers and
then converted. -/
def reclaimOutputLength {σ : Type} (page_count : ℤ) : Exec σ ℕ := do
  let words ← int32 (page_count * 2)
  let words ← int32 (2 + words)
  return (BitVec.ofInt 32 words).toNat

/-- `reclaim_pages`. -/
def reclaimPages (D : CMD.HCA δ) (page_count : ℤ) : Exec (MLX5_Context δ) Word := do
  let payload := Buf.ofList [0, BitVec.ofInt 32 page_count]
  let output_length ← reclaimOutputLength page_count
  let ctx ← get
  let output : Buf := ⟨CMD.OMB_MAX_DATA + 2, ctx.uninit⟩
  let slot ← hcaLens.zoom (CMD.issue D .MANAGE_PAGES 0x2 payload 2 output_length)
  let ctx ← get
  let reclaim_page_count := ioread32be ((ctx.hca.args.cqe slot).cod.output 0)
  let output ← argsLens.zoom (CMD.getCmdOutput slot output output_length)
  forRange reclaim_page_count.toInt.toNat () (reclaimPage output)
  return reclaim_page_count

/-- The loop of `reclaim_all_pages`, for at most `fuel` rounds. -/
def reclaimRounds (D : CMD.HCA δ) : ℕ → ℤ → Exec (MLX5_Context δ) ℤ
  | 0, _ => throw .diverges
  | fuel + 1, result => do
    let reclaim_page_count ← reclaimPages D (64 * CMD.MBB_MAX_COUNT)
    let result ← int32 (result + reclaim_page_count.toInt)
    if reclaim_page_count = 0 then return result
    reclaimRounds D fuel result

/-- `reclaim_all_pages`. -/
def reclaimAllPages (D : CMD.HCA δ) (fuel : ℕ) : Exec (MLX5_Context δ) Word := do
  let result ← reclaimRounds D fuel 0
  return BitVec.ofInt 32 result

/-- What `page_request_handler` does with the data of an event. -/
def handlePageRequest (D : CMD.HCA δ) (payload : Event.Payload) : Exec (MLX5_Context δ) Unit := do
  let page_count := (payload 1).toInt
  if page_count > 0 then providePages D (payload 1).toNat
  else do
    let page_count ← abs page_count
    let _ ← reclaimPages D page_count
    return ()

/-! ## Destroying event queues -/

/-- `Event::destroy_eq`. -/
def destroyEq (D : CMD.HCA δ) (eq_number : Word) : Exec (MLX5_Context δ) Unit := do
  let ctx ← get
  match ctx.event_queue_pool.pool.data.index eq_number.toNat with
  | none => throw (.undefined .null_deref)
  | some eq =>
    let blk ← eqLens.zoom (PA.deref (some eq.block))
    let payload := Buf.ofList [(blk.start eq.index).data.id, 0]
    let _ ← hcaLens.zoom (CMD.issue D .DESTROY_EQ 0x0 payload 2 DESTROY_EQ_OUTPUT_LENGTH)
    return ()

/-- `start[i]`. The first block is an object of its own and not one of an array, so nothing can be
read at any other index. -/
def startAt (i : ℕ) : Exec (MLX5_Context δ) (PA.Block Unit (Q.ED Event.EQ_CTX)) := do
  let ctx ← get
  let blk ← eqLens.zoom (PA.deref ctx.event_queue_pool.pool.start)
  if i = 0 then return blk else throw (.undefined .out_of_bounds)

/-- One round of the inner loop at the start of `teardown_hca`. -/
def teardownElement (D : CMD.HCA δ) (i j : ℕ) (_ : Unit) : Exec (MLX5_Context δ) Unit := do
  let blk ← startAt i
  let eq := blk.start j
  if eq.used then destroyEq D eq.data.id else return ()

/-- One round of the outer loop. -/
def teardownBlock (D : CMD.HCA δ) (i : ℕ) (_ : Unit) : Exec (MLX5_Context δ) Unit := do
  let ctx ← get
  forRange ctx.event_queue_pool.pool.block_size () (teardownElement D i)

/-- The loop at the start of `teardown_hca`, which destroys all event queues. It does not change the
numbers of blocks and elements that it counts to. -/
def teardownEqs (D : CMD.HCA δ) : Exec (MLX5_Context δ) Unit := do
  let ctx ← get
  forRange ctx.event_queue_pool.pool.block_count () (teardownBlock D)

/-! ## The context at the start -/

/-- A pool of queue objects as `init_queue_obj_pool` sets it up. -/
def initQueueObjPool {Ctx : Type} (page_entry_count : ℕ) (q_ctx : Ctx) : Q.State Ctx where
  world := ()
  pool := {
    max := 1024, size := 0, block_size := 64, block_count := 0
    data := ⟨page_entry_count, fun _ => none⟩, start := none, «end» := none }
  heap := {
    block := fun _ => none, fresh := 0,
    uninit := fun _ => ⟨0, none, none, (), fun _ =>
      ⟨false, { start := 0, size := 0, head := 0, dma_mem := ⟨0, 0⟩, id := 0, uarp := none,
                pas_list := ⟨0, fun _ => 0⟩, q_ctx := q_ctx }, 0⟩⟩ }

/-- A context with a command queue of 32 slots and empty pools, in front of a device. -/
def initContext (dev : δ) : MLX5_Context δ where
  hca := ⟨CMD.freshArgs 32, dev, []⟩
  mem_page_pool := MEM.initPool
  uar_page_pool := UAR.freshPool
  event_queue_pool := initQueueObjPool 64 ⟨0, 0⟩
  compl_queue_pool := initQueueObjPool 64 ⟨0⟩
  work_queue_pool := initQueueObjPool 1 ⟨⟨0, 0, 0, 0, fun _ => 0, 0, 0, 0⟩⟩
  eqe _ := Event.zeroed
  uninit _ := 0
  pas_overrun := false
  requests := []

/-- The command arguments of this context are ready. -/
theorem initContext_idle (dev : δ) : CMD.Idle (initContext dev).hca.args :=
  CMD.freshArgs_idle (by norm_num) (by norm_num)

end Driver

end L4Rdma
