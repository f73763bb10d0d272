import L4Rdma.Driver.Bounds
import L4Rdma.Driver.Init
import L4Rdma.Driver.Waiting
import L4Rdma.Driver.WorkQueues
import L4Rdma.Lib.Bytes

/-!
# Starting and shutting down the device

`init_hca` and `teardown_hca` of `server/src/driver.cc` with the functions that only they call, and
what `main` (`server/src/main.cc`) does between them. `main` starts the device, creates an event queue
for page requests and a work queue, and serves its clients until one of them makes it throw. Then it
shuts the device down. In the meantime a second thread handles page requests.
-/

namespace L4Rdma

open Lib Device

namespace Driver

variable {δ : Type}

/-! ## Lengths of outputs -/

/-- The number of words of output of INIT_HCA. -/
abbrev INIT_HCA_OUTPUT_LENGTH : ℕ := 0

/-- The number of words of output of TEARDOWN_HCA. -/
abbrev TEARDOWN_HCA_OUTPUT_LENGTH : ℕ := 0

/-- The number of words of output of ENABLE_HCA. -/
abbrev ENABLE_HCA_OUTPUT_LENGTH : ℕ := 0

/-- The number of words of output of DISABLE_HCA. -/
abbrev DISABLE_HCA_OUTPUT_LENGTH : ℕ := 0

/-- The number of words of output of QUERY_PAGES. -/
abbrev QUERY_PAGES_OUTPUT_LENGTH : ℕ := 2

/-- The number of words of output of SET_DRIVER_VERSION. -/
abbrev SET_DRIVER_VERSION_OUTPUT_LENGTH : ℕ := 0

/-- The number of words of output of DEALLOC_UAR. -/
abbrev DEALLOC_UAR_OUTPUT_LENGTH : ℕ := 0

/-! ## The initialization segment -/

/-- The registers of `Init_Seg` that `init_hca` uses, apart from the one that it waits for. Of the
others it only prints what they contain. -/
structure Init_Seg where
  cmdq_addr_msb : Word
  cmdq_addr_lsb_info : Word

/-- What `init_hca` works on: the context, and the registers that `ctx.init_seg` points to. -/
structure Boot (δ : Type) where
  ctx : MLX5_Context δ
  init_seg : Init_Seg
  /-- The register `initializing`, and the clock. -/
  initializing : Watch Word

/-- The context. -/
def ctxLens : Lens (Boot δ) (MLX5_Context δ) where
  view := Boot.ctx
  set ctx b := { b with ctx := ctx }

/-- The register that says whether the device is still initializing. -/
def initializingLens : Lens (Boot δ) (Watch Word) where
  view := Boot.initializing
  set w b := { b with initializing := w }

/-! ## The pages for the initialization -/

/-- `get_number_of_pages`. -/
def getNumberOfPages (slot : ℕ) : Exec (MLX5_Context δ) ℤ := do
  let ctx ← get
  let pages_out : Buf := ⟨QUERY_ISSI_OUTPUT_LENGTH, ctx.uninit⟩
  let pages_out ← argsLens.zoom (CMD.getCmdOutput slot pages_out QUERY_PAGES_OUTPUT_LENGTH)
  let page_count ← pages_out.read 1
  return page_count.toInt

/-- Asks the device how many pages it needs, and provides them. A `throw;` in the source has nothing to
throw again and ends the program. -/
def provideQueriedPages (D : CMD.HCA δ) (op_mod : Word) : Exec (MLX5_Context δ) ℤ := do
  let slot ← hcaLens.zoom
    (CMD.issue D .QUERY_PAGES op_mod (Buf.ofList []) 0 QUERY_PAGES_OUTPUT_LENGTH)
  let page_count ← getNumberOfPages slot
  if page_count < 0 then throw (.thrown "throw;")
  providePages D page_count.toNat
  return page_count

/-- `provide_boot_pages`. -/
def provideBootPages (D : CMD.HCA δ) : Exec (MLX5_Context δ) ℤ := provideQueriedPages D 0x1

/-- `provide_init_pages`. -/
def provideInitPages (D : CMD.HCA δ) : Exec (MLX5_Context δ) ℤ := provideQueriedPages D 0x2

/-! ## The driver version -/

/-- The bytes of `version` that are copied, with the one that ends the string. -/
def version : List (BitVec 8) :=
  "l4re,mlx5,1.000.000000".toList.map (fun c => BitVec.ofNat 8 c.toNat) ++ [0]

/-- The memory of the array `driver`, which has the version from its third word on. -/
def driverBytes (uninit : ℕ → Word) : Bytes := fun b =>
  if 8 ≤ b ∧ b < 8 + version.length then version.getD (b - 8) 0
  else (uninit (b / 4)).extractLsb' (8 * (b % 4)) 8

/-- `set_driver_version`. -/
def setDriverVersion (D : CMD.HCA δ) : Exec (MLX5_Context δ) Unit := do
  let ctx ← get
  let driver : Buf := ⟨18, fun i => load32 (driverBytes ctx.uninit) (4 * i)⟩
  let _ ← hcaLens.zoom
    (CMD.issue D .SET_DRIVER_VERSION 0x0 driver 18 SET_DRIVER_VERSION_OUTPUT_LENGTH)
  return ()

/-! ## UAR pages -/

/-- `alloc_uar`. Of the pool of UAR pages it leaves only `end` as it was. -/
def allocUar (D : CMD.HCA δ) (bar0 : ℕ) : Exec (MLX5_Context δ) Unit := do
  let index ← create D .ALLOC_UAR (Buf.ofList []) 0
  let uar : UAR.Uar := {
    index := index.toNat
    addr := (bar0 + HCA_PAGE_SIZE * index.toNat % 2 ^ 32) % 2 ^ 64 }
  modify fun ctx => { ctx with uar_page_pool := { ctx.uar_page_pool with
    pool := UAR.initPool uar ctx.uar_page_pool.pool.end } }

/-- The index of the UAR page that the device has allocated. -/
def uarIndex (ctx : MLX5_Context δ) : Word := BitVec.ofNat 32 ctx.uar_page_pool.pool.data.base.index

/-- `dealloc_uar`. -/
def deallocUar (D : CMD.HCA δ) : Exec (MLX5_Context δ) Unit := do
  let ctx ← get
  let _ ← hcaLens.zoom
    (CMD.issue D .DEALLOC_UAR 0x0 (Buf.ofList [uarIndex ctx, 0]) 2 DEALLOC_UAR_OUTPUT_LENGTH)
  return ()

/-! ## The pools of queue objects -/

/-- The assignments to one pool in `init_queue_obj_pool`. They leave its index and `end`. -/
def resetPool {Ctx : Type} (page_entry_count : ℕ) (s : Q.State Ctx) : Q.State Ctx :=
  { s with pool := { s.pool with
    max := 1024, size := 0, block_size := 64, block_count := 0, start := none
    data := { s.pool.data with page_entry_count := page_entry_count } } }

/-- `init_queue_obj_pool`. -/
def initQueueObjPools : Exec (MLX5_Context δ) Unit :=
  modify fun ctx => { ctx with
    event_queue_pool := resetPool Event.PAGE_EQE_COUNT ctx.event_queue_pool
    compl_queue_pool := resetPool CQ.PAGE_CQE_COUNT ctx.compl_queue_pool
    work_queue_pool := resetPool 1 ctx.work_queue_pool }

/-! ## Initialization -/

/-- The commands of `init_hca`, and what it sets up for the time after them. -/
def initSequence (D : CMD.HCA δ) (bar0 : ℕ) : Exec (MLX5_Context δ) Unit := do
  let _ ← hcaLens.zoom (CMD.issue D .ENABLE_HCA 0x0 (Buf.ofList []) 0 ENABLE_HCA_OUTPUT_LENGTH)
  let _ ← configureIssi D
  let _ ← provideBootPages D
  let set_driver ← configureHcaCap D
  let _ ← provideInitPages D
  let _ ← hcaLens.zoom (CMD.issue D .INIT_HCA 0x0 (Buf.ofList []) 0 INIT_HCA_OUTPUT_LENGTH)
  doIf (set_driver = true) (setDriverVersion D)
  allocUar D bar0
  initQueueObjPools

/-- `init_hca`, with `ctx.init_seg` at `bar0`. -/
def initHca (D : CMD.HCA δ) (bar0 : ℕ) : Exec (Boot δ) Unit := do
  initializingLens.zoom initWait
  let boot ← get
  let _ ← readCmdqInfo boot.init_seg.cmdq_addr_lsb_info
  -- Writes the address of the command queue to the device.
  let addr := boot.ctx.hca.args.cq.dma_mem.phys
  modify fun boot => { boot with init_seg := {
    cmdq_addr_msb := iowrite32be (msb addr)
    cmdq_addr_lsb_info := iowrite32be (lsb addr) } }
  initializingLens.zoom initWait
  ctxLens.zoom (initSequence D bar0)

/-! ## Shutting down -/

/-- `teardown_hca`. Its loop that reclaims pages has at most `fuel` rounds. -/
def teardownHca (D : CMD.HCA δ) (fuel : ℕ) : Exec (MLX5_Context δ) Unit := do
  teardownEqs D
  deallocUar D
  let _ ← hcaLens.zoom (CMD.issue D .TEARDOWN_HCA 0x0 (Buf.ofList []) 0 TEARDOWN_HCA_OUTPUT_LENGTH)
  let _ ← reclaimAllPages D fuel
  let _ ← hcaLens.zoom (CMD.issue D .DISABLE_HCA 0x0 (Buf.ofList []) 0 DISABLE_HCA_OUTPUT_LENGTH)
  return ()

/-! ## The event queue for page requests -/

/-- `arm_eq`: the address of the UAR page that it writes to, and the word that it writes there. -/
def armEq (eq_number : Word) : Exec (MLX5_Context δ) (ℕ × Word) := do
  let ctx ← get
  match ctx.event_queue_pool.pool.data.index eq_number.toNat with
  | none => throw (.undefined .null_deref)
  | some eq =>
    let el ← eqLens.zoom (PA.derefElement (some eq))
    let uarp ← uarLens.zoom (PA.derefElement el.data.uarp)
    return (uarp.data.addr, iowrite32be (el.data.id <<< 24 &&& 0xff000000))

/-- Records the page request in an event that has been read. -/
def recordRequest (payload : Event.Payload) : Exec (MLX5_Context δ) Unit :=
  modify fun ctx => { ctx with
    requests := ctx.requests ++ [(ctx.hca.seen.length, (payload 1).toInt)] }

/-- One round of the loop of `page_request_handler`. -/
def handlerRound (D : CMD.HCA δ) (eq_number : Word) : Exec (MLX5_Context δ) Unit := do
  let ctx ← get
  match ctx.event_queue_pool.pool.data.index eq_number.toNat with
  | none => throw (.undefined .null_deref)
  | some eq =>
    let el ← eqLens.zoom (PA.derefElement (some eq))
    let ctx ← get
    -- Nothing to do if no event has occurred.
    if Event.eqeOwnedByHw ⟨el.data.toQueue, ctx.eqe eq⟩ then return ()
    let payload ← (eqMemory eq el.data.toQueue).zoom Event.readEqe
    eqLens.zoom (PA.storeData (some eq) fun d => { d with head := (Q.enqueue d.toQueue).2.head })
    recordRequest payload
    handlePageRequest D payload

/-- What happens between two calls of the main thread. -/
inductive Act
  /-- The device writes to the memory of the event queues. -/
  | post (eqe : PA.ElementPtr → ℕ → Event.EQE)
  /-- A round of the second thread. -/
  | round

/-- The device and the second thread, while the main thread waits. -/
def await (D : CMD.HCA δ) (eq_number : Word) : List Act → Exec (MLX5_Context δ) Unit
  | [] => pure ()
  | .post eqe :: acts => do
    modify fun ctx => { ctx with eqe := eqe }
    await D eq_number acts
  | .round :: acts => do
    handlerRound D eq_number
    await D eq_number acts

/-- `EVENT_TYPE_PAGE_REQUEST`. -/
def EVENT_TYPE_PAGE_REQUEST : Word := 0xb

/-- `setup_event_queue`. The second thread runs from its creation on. -/
def setupEventQueue (D : CMD.HCA δ) (acts acts' : List Act) : Exec (MLX5_Context δ) Word := do
  let eq_number ← createEq D 4 EVENT_TYPE_PAGE_REQUEST 0
  let _ ← getEqState D eq_number
  await D eq_number acts
  let _ ← armEq eq_number
  await D eq_number acts'
  let _ ← getEqState D eq_number
  return eq_number

/-- `setup_work_queue`, with what the second thread does in the meantime. -/
def setupWorkQueue (D : CMD.HCA δ) (eq_number : Word) (acts : List Act) :
    Exec (MLX5_Context δ) Unit := do
  let wq_number ← createWqc D 2 0
  await D eq_number acts
  destroyWqc D wq_number

/-! ## The main thread -/

/-- What happens at the five places where the main thread lets the second thread go on. -/
structure Meanwhile where
  beforeArm : List Act
  afterArm : List Act
  beforeWork : List Act
  inWork : List Act
  /-- While the main thread serves its clients, and until the second thread has come to its end. -/
  serving : List Act

/-- What `main` does with the context after `init_hca`, until a client makes it throw and shut the
device down. -/
def serveAndShutDown (D : CMD.HCA δ) (m : Meanwhile) (fuel : ℕ) : Exec (MLX5_Context δ) Unit := do
  let eq_number ← setupEventQueue D m.beforeArm m.afterArm
  await D eq_number m.beforeWork
  setupWorkQueue D eq_number m.inWork
  await D eq_number m.serving
  teardownHca D fuel

/-- `main` from `init_hca` on. -/
def main (D : CMD.HCA δ) (bar0 : ℕ) (m : Meanwhile) (fuel : ℕ) : Exec (Boot δ) Unit := do
  initHca D bar0
  ctxLens.zoom (serveAndShutDown D m fuel)

/-- What `main` sets up in the context before `init_hca`: memory for the command queue and the mailboxes, and
the pool of memory pages. -/
def setUp : Exec (MLX5_Context δ) Unit := do
  let dma_mem ← dmaLens.zoom (MEM.allocDmaMem HCA_PAGE_SIZE)
  argsLens.zoom (modify fun a => { a with cq := { a.cq with dma_mem := dma_mem } })
  let imb_mem ← dmaLens.zoom (MEM.allocDmaMem (HCA_PAGE_SIZE * CMD.MBB_MAX_COUNT))
  argsLens.zoom (modify fun a => { a with imb_mem := imb_mem })
  let omb_mem ← dmaLens.zoom (MEM.allocDmaMem (HCA_PAGE_SIZE * CMD.MBB_MAX_COUNT))
  argsLens.zoom (modify fun a => { a with omb_mem := omb_mem })
  memLens.zoom (modify fun s => { s with pool := { s.pool with
    max := 65536, size := 0, block_size := 1024, block_count := 0, start := none } })
  argsLens.zoom (modify fun a => { a with cq := { a.cq with size := 32, start := a.cq.dma_mem.virt } })

/-- `main` with what it sets up. -/
def program (D : CMD.HCA δ) (bar0 : ℕ) (m : Meanwhile) (fuel : ℕ) : Exec (Boot δ) Unit := do
  ctxLens.zoom setUp
  main D bar0 m fuel

end Driver

end L4Rdma
