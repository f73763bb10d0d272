import L4Rdma.Driver.Model
import L4Rdma.Queue.Model

/-!
# Creating queues

`Event::create_eq` in `server/src/event.cc`, `CQ::create_cq` in `server/src/cq.cc` and
`WQ::create_wqc` in `server/src/wq.cc`. An event queue or a completion queue is allocated by the
driver and then made known to the device, with its context and the addresses of its pages in the
payload of a command. The payload is put together in an array on the stack, of which not every
element needs to be assigned. What a function does up to the command is a function of its own here
(`prepareEq`, `prepareCq`).
-/

namespace L4Rdma

open Lib Device

/-- An array on the stack: its length, and the words that have been assigned to its elements. -/
structure Local where
  size : ℕ
  word : ℕ → Option Word

/-- An array to which nothing has been assigned. -/
def Local.unassigned (size : ℕ) : Local := ⟨size, fun _ => none⟩

/-- Assigns a word to an element. -/
def Local.write {σ : Type} (b : Local) (i : ℕ) (w : Word) : Exec σ Local :=
  if i < b.size then pure { b with word := Function.update b.word i (some w) }
  else throw (.undefined .out_of_bounds)

/-- The array for a function that reads it: an element to which nothing has been assigned holds what
the stack happens to contain. -/
def Local.toBuf (b : Local) (uninit : ℕ → Word) : Buf := ⟨b.size, fun i => (b.word i).getD (uninit i)⟩

/-- `log2`, converted to an integer. The logarithm of zero is not a number that can be. -/
def log2 {σ : Type} (size : ℕ) : Exec σ ℕ :=
  if size = 0 then throw (.undefined .bad_conversion) else pure (Nat.log2 size)

/-- The field of a context word that holds the logarithm of the number of entries. The masks and
offsets are the same for event queues and completion queues. -/
def logAndUar (log_size uar : ℕ) : Word :=
  BitVec.ofNat 32 log_size <<< 24 &&& (0x1f000000 : Word) |||
    BitVec.ofNat 32 uar <<< 0 &&& (0x00ffffff : Word)

/-- An array of two words. -/
def pair (w₀ w₁ : Word) : Fin 2 → Word := fun i => if i = 0 then w₀ else w₁

/-! ## Contexts of queues -/

namespace Event

/-- Event queue context. -/
structure EQC where
  status : Word := 0
  page_offset : Word := 0
  log_eq_size_and_uar : Word := 0
  intr : Word := 0
  log_page_size : Word := 0
  consumer_counter : Word := 0
  producer_counter : Word := 0

/-- The words of an event queue context, with those that are reserved. -/
def EQC.words (eqc : EQC) : List Word :=
  [eqc.status, 0, eqc.page_offset, eqc.log_eq_size_and_uar, 0, eqc.intr, eqc.log_page_size, 0, 0, 0,
    eqc.consumer_counter, eqc.producer_counter, 0, 0, 0, 0]

/-- Event queue input structure. -/
structure EQI where
  eqc : EQC
  type : Fin 2 → Word

/-- The words of an event queue input structure, which is zeroed before it is filled. -/
def EQI.words (eqi : EQI) : List Word :=
  [0, 0] ++ eqi.eqc.words ++ [0, 0] ++ [eqi.type 0, eqi.type 1] ++ List.replicate 44 0

/-- `sizeof(EQI) / 4`. -/
abbrev EQI_SIZE : ℕ := 66

/-- The number of bytes of an event queue entry. -/
abbrev EQE_BYTES : ℕ := 64

/-- `PAGE_EQE_COUNT`. -/
abbrev PAGE_EQE_COUNT : ℕ := HCA_PAGE_SIZE / EQE_BYTES

/-- The event type of completions. -/
def EVENT_TYPE_COMPLETION_EVENT : Word := 0x0

/-- The set of event types to ask for, as a `bitset`. It has no bit for completion events. -/
def eqType {σ : Type} (type : Word) : Exec σ (BitVec 64) :=
  if type = 0 then pure 0
  else if type.toNat < 64 then pure (1 <<< type.toNat)
  else throw (.undefined .out_of_bounds)

end Event

namespace CQ

/-- Completion queue context. -/
structure CQC where
  ctrl : Word
  page_offset : Word
  log_cq_size_and_uar_page : Word
  cq_period_and_cq_max_count : Word
  eqn : Word
  log_page_size : Word
  last_notified_index : Word
  last_solicit_index : Word
  consumer_counter : Word
  producer_counter : Word
  dbr : Fin 2 → Word

/-- The words of a completion queue context. The reserved ones are set to zero. -/
def CQC.words (cqc : CQC) : List Word :=
  [cqc.ctrl, 0, cqc.page_offset, cqc.log_cq_size_and_uar_page, cqc.cq_period_and_cq_max_count,
    cqc.eqn, cqc.log_page_size, 0, cqc.last_notified_index, cqc.last_solicit_index,
    cqc.consumer_counter, cqc.producer_counter, 0, 0, cqc.dbr 0, cqc.dbr 1]

/-- `CQC_SIZE`. -/
abbrev CQC_SIZE : ℕ := 16

/-- The number of words of the payload before the addresses of the pages. -/
abbrev HEADER_SIZE : ℕ := 2 + CQC_SIZE + 24

/-- `PAGE_CQE_COUNT`. -/
abbrev PAGE_CQE_COUNT : ℕ := HCA_PAGE_SIZE / 64

end CQ

namespace Driver

variable {δ Ctx : Type}

/-! ## Parts of the context -/

/-- What the functions of a pool of queue objects work on. -/
def queueEnv (l : Lens (MLX5_Context δ) (Q.State Ctx)) : Lens (MLX5_Context δ) (Q.Env Ctx) where
  view ctx := {
    qop := l.view ctx
    uar_page_pool := ctx.uar_page_pool
    dma := ctx.mem_page_pool.world
    uninit := ctx.uninit
    pas_overrun := ctx.pas_overrun }
  set e ctx := l.set e.qop { ctx with
    uar_page_pool := e.uar_page_pool
    mem_page_pool := { ctx.mem_page_pool with world := e.dma }
    uninit := e.uninit
    pas_overrun := e.pas_overrun }

/-- An event queue with its memory. -/
def eqMemory (eq : PA.ElementPtr) (queue : Q.Queue) : Lens (MLX5_Context δ) Event.EQ where
  view ctx := ⟨queue, ctx.eqe eq⟩
  set w ctx := { ctx with eqe := Function.update ctx.eqe eq w.entry }

/-! ## Commands with two words of output -/

/-- Issues a command with two words of output, and returns the first of them. -/
def create (D : CMD.HCA δ) (opcode : CMD.OPCODE) (payload : Buf) (payload_length : ℕ) :
    Exec (MLX5_Context δ) Word := do
  let slot ← hcaLens.zoom (CMD.issue D opcode 0x0 payload payload_length 2)
  let ctx ← get
  let output ← argsLens.zoom (CMD.getCmdOutput slot ⟨2, ctx.uninit⟩ 2)
  output.read 0

/-- `alloc_pd`. -/
def allocPd (D : CMD.HCA δ) : Exec (MLX5_Context δ) Word := create D .ALLOC_PD (Buf.ofList []) 0

/-- Gives a queue the number that the device has given it, and enters it in the index. -/
def nameQueue (l : Lens (MLX5_Context δ) (Q.State Ctx)) (qo : PA.ElementPtr) (id : Word) :
    Exec (MLX5_Context δ) Unit := do
  l.zoom (PA.storeData (some qo) fun d => { d with id := id })
  l.zoom (Q.indexQueue qo)

/-! ## Filling payloads -/

/-- One round of the loops that copy a context to the payload. -/
def copyWord (words : List Word) (start i : ℕ) (payload : Local) : Exec (MLX5_Context δ) Local :=
  payload.write (start + i) (words.getD i 0)

/-- One round of the loops that copy page addresses to the payload. -/
def copyPas (l : Lens (MLX5_Context δ) (Q.State Ctx)) (qo : PA.ElementPtr) (start i : ℕ)
    (payload : Local) : Exec (MLX5_Context δ) Local := do
  let w ← (queueEnv l).zoom (Q.readPas qo i)
  payload.write (start + i) w

/-! ## Event queues -/

/-- The number of bytes of DMA memory from an address on. -/
def memoryBytes (dma : MEM.Dma) (m : MEM.DmaMem) : ℕ :=
  ((dma.mapped.find? fun r => r.phys = m.phys).map MEM.Region.size).getD 0

/-- `init_eq` on a queue of the pool. The entries that it writes have to be in the queue's memory. -/
def initEventQueue (eq : PA.ElementPtr) : Exec (MLX5_Context δ) Unit := do
  let el ← eqLens.zoom (PA.derefElement (some eq))
  let ctx ← get
  doIf (memoryBytes ctx.mem_page_pool.world el.data.dma_mem <
      (el.data.size + 0xffffffffffffffff) % 2 ^ 64 * Event.EQE_BYTES)
    (throw (.undefined .out_of_bounds))
  (eqMemory eq el.data.toQueue).zoom Event.initEq

/-- `create_eq` up to its payload: the queue, its input structure and its number of pages. -/
def startEq (size : ℕ) (type irq_num : Word) :
    Exec (MLX5_Context δ) (PA.ElementPtr × Event.EQI × ℕ) := do
  let eq ← (queueEnv eqLens).zoom (Q.allocQueue size)
  eqLens.zoom (PA.storeData (some eq) fun d => { d with q_ctx := ⟨irq_num, type⟩ })
  let el ← eqLens.zoom (PA.derefElement (some eq))
  let page_count := Q.pageCount el.data.size Event.PAGE_EQE_COUNT
  if page_count > (128 - Event.EQI_SIZE) / 2 then throw (.thrown "Event Queue too large!")
  let log_size ← log2 el.data.size
  let uar ← (queueEnv eqLens).zoom (Q.uarIndex eq)
  let eq_type ← Event.eqType el.data.q_ctx.type
  let eqi : Event.EQI := {
    eqc := {
      log_eq_size_and_uar := logAndUar log_size uar
      intr := el.data.q_ctx.irq_num <<< 0 &&& 0x000000ff }
    type := pair ((eq_type >>> 32).setWidth 32) (eq_type.setWidth 32) }
  return (eq, eqi, page_count)

/-- The loops of `create_eq`. -/
def fillEq (eq : PA.ElementPtr) (eqi : Event.EQI) (page_count : ℕ) :
    Exec (MLX5_Context δ) Local := do
  let payload ← forRange Event.EQI_SIZE (.unassigned 128) (copyWord eqi.words 0)
  forRange page_count payload (copyPas eqLens eq Event.EQI_SIZE)

/-- The part of `create_eq` up to its command: the queue, the payload and its length. -/
def prepareEq (size : ℕ) (type irq_num : Word) :
    Exec (MLX5_Context δ) (PA.ElementPtr × Local × ℕ) := do
  let (eq, eqi, page_count) ← startEq size type irq_num
  let payload ← fillEq eq eqi page_count
  initEventQueue eq
  return (eq, payload, Event.EQI_SIZE + page_count * 2)

/-- `create_eq`. -/
def createEq (D : CMD.HCA δ) (size : ℕ) (type irq_num : Word) : Exec (MLX5_Context δ) Word := do
  let (eq, payload, payload_length) ← prepareEq size type irq_num
  let ctx ← get
  let eq_number ← create D .CREATE_EQ (payload.toBuf ctx.uninit) payload_length
  nameQueue eqLens eq eq_number
  return eq_number

/-! ## Completion queues -/

/-- `create_cq` from the allocation of the queue up to its payload: the queue, its context and its
number of pages. -/
def startCq (phys : ℕ) (eq_number : Word) (size : ℕ) :
    Exec (MLX5_Context δ) (PA.ElementPtr × CQ.CQC × ℕ) := do
  let cq ← (queueEnv cqLens).zoom (Q.allocQueue size)
  let log_size ← log2 size
  let uar ← (queueEnv cqLens).zoom (Q.uarIndex cq)
  let cqc : CQ.CQC := {
    ctrl := 0
    page_offset := 0
    log_cq_size_and_uar_page := logAndUar (log_size % 2 ^ 8) uar
    cq_period_and_cq_max_count := 0
    eqn := eq_number
    log_page_size := 0
    last_notified_index := 0
    last_solicit_index := 0
    consumer_counter := 0
    producer_counter := 0
    dbr := pair (msb phys) (lsb phys) }
  return (cq, cqc, Q.pageCount size CQ.PAGE_CQE_COUNT)

/-- The assignments and loops of `create_cq`. -/
def fillCq (cq : PA.ElementPtr) (cqc : CQ.CQC) (page_count : ℕ) : Exec (MLX5_Context δ) Local := do
  let payload ← (Local.unassigned 128).write 0 0
  let payload ← payload.write 1 0
  let payload ← forRange CQ.CQC_SIZE payload (copyWord cqc.words 2)
  forRange page_count payload (copyPas cqLens cq CQ.HEADER_SIZE)

/-- The part of `create_cq` from the allocation of the queue up to its command: the queue, the
payload and its length. -/
def prepareCq (phys : ℕ) (eq_number : Word) (size : ℕ) :
    Exec (MLX5_Context δ) (PA.ElementPtr × Local × ℕ) := do
  let (cq, cqc, page_count) ← startCq phys eq_number size
  let payload ← fillCq cq cqc page_count
  return (cq, payload, (CQ.HEADER_SIZE + page_count * 2) % 2 ^ 32)

/-- `create_cq`. It takes a page for a doorbell record, and creates an event queue of its own. -/
def createCq (D : CMD.HCA δ) (size : ℕ) : Exec (MLX5_Context δ) Word := do
  let mp ← memLens.zoom MEM.allocPage
  let el ← memLens.zoom (PA.derefElement (some mp))
  let eq_number ← createEq D 4 Event.EVENT_TYPE_COMPLETION_EVENT 0
  let (cq, payload, payload_length) ← prepareCq el.data.phys eq_number size
  let ctx ← get
  let cq_number ← create D .CREATE_CQ (payload.toBuf ctx.uninit) payload_length
  nameQueue cqLens cq cq_number
  return cq_number

/-! ## Work queues -/

/-- `create_wqc`. The caller chooses the number of the queue, and the device is not told about it. -/
def createWqc (D : CMD.HCA δ) (size : ℕ) (wq_number : Word) : Exec (MLX5_Context δ) Word := do
  let wq ← (queueEnv wqLens).zoom (Q.allocQueue size)
  nameQueue wqLens wq wq_number
  let mp ← memLens.zoom MEM.allocPage
  let el ← memLens.zoom (PA.derefElement (some mp))
  let phys := el.data.phys
  wqLens.zoom (PA.storeData (some wq) fun d => { d with q_ctx.wqc := { d.q_ctx.wqc with
    type := 0, page_offset_and_lwm := 0 } })
  let pd ← allocPd D
  let uar ← (queueEnv wqLens).zoom (Q.uarIndex wq)
  let log_size ← log2 (size * HCA_PAGE_SIZE % 2 ^ 64)
  wqLens.zoom (PA.storeData (some wq) fun d => { d with q_ctx.wqc := { d.q_ctx.wqc with
    pd := pd
    uar := BitVec.ofNat 32 uar
    dbr := pair (msb phys) (lsb phys)
    hw_counter := 0
    sw_counter := 0
    log_wq_sizes := BitVec.ofNat 32 (log_size % 2 ^ 8) <<< 0 &&& 0x0000001f } })
  return wq_number

end Driver

end L4Rdma
