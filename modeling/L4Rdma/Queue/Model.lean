import L4Rdma.Queue
import L4Rdma.Pool.Uar

/-!
# Allocating a queue

`Q::alloc_queue` in `server/src/queue.cc`. A queue gets an object of its pool, a UAR page, DMA memory
for its entries, and a list of the addresses of the pages of this memory.

The list is an array on the heap. `alloc_queue` and its callers do not check the indexes that they
access it at, and an access at an index that the array does not have goes to the memory behind it.
Here that memory is as good as the array's own, since the driver survives such accesses as a rule,
but a note of them is taken (`pas_overrun`).
-/

namespace L4Rdma.Q

open Lib

/-- What the functions of a pool of queue objects work on: the pool, and what its data points to. -/
structure Env (Ctx : Type) where
  qop : State Ctx
  uar_page_pool : UAR.State Unit
  dma : MEM.Dma
  /-- What memory from `malloc` contains. -/
  uninit : ℕ → Word
  /-- Whether an array of page addresses has been accessed at an index that it does not have. -/
  pas_overrun : Bool

variable {Ctx : Type}

/-- The pool of queue objects. -/
def Env.qopLens : Lens (Env Ctx) (State Ctx) where
  view := Env.qop
  set s e := { e with qop := s }

/-- The pool of UAR pages. -/
def Env.uarLens : Lens (Env Ctx) (UAR.State Unit) where
  view := Env.uar_page_pool
  set s e := { e with uar_page_pool := s }

/-- The DMA space. -/
def Env.dmaLens : Lens (Env Ctx) MEM.Dma where
  view := Env.dma
  set d e := { e with dma := d }

/-! ## The list of page addresses -/

/-- The array with another word, in it or behind it. -/
def put (b : Buf) (i : ℕ) (w : Word) : Buf := { b with word := Function.update b.word i w }

/-- Takes a note of an access to the list of page addresses of a queue. -/
def notePas (pas_list : Buf) (i : ℕ) : Exec (Env Ctx) Unit :=
  modify fun e => { e with pas_overrun := e.pas_overrun || decide (pas_list.size ≤ i) }

/-- Writes an entry of the list of page addresses of a queue. -/
def writePas (qo : PA.ElementPtr) (i : ℕ) (w : Word) : Exec (Env Ctx) Unit := do
  let el ← Env.qopLens.zoom (PA.derefElement (some qo))
  notePas el.data.pas_list i
  Env.qopLens.zoom (PA.storeData (some qo) fun d => { d with pas_list := put d.pas_list i w })

/-- Reads an entry of the list of page addresses of a queue. -/
def readPas (qo : PA.ElementPtr) (i : ℕ) : Exec (Env Ctx) Word := do
  let el ← Env.qopLens.zoom (PA.derefElement (some qo))
  notePas el.data.pas_list i
  return el.data.pas_list.word i

/-- The address of page `i` of the memory of a queue. -/
def pagePhys (m : MEM.DmaMem) (i : ℕ) : ℕ := (m.phys + i * HCA_PAGE_SIZE % 2 ^ 32) % 2 ^ 64

/-- The index of the first half of the address of page `i`. -/
def pasOffset (i : ℕ) : ℕ := i * 2 % 2 ^ 32

/-- One round of the loop of `alloc_queue`: the address of a page. -/
def recordPage (qo : PA.ElementPtr) (i : ℕ) (_ : Unit) : Exec (Env Ctx) Unit := do
  let el ← Env.qopLens.zoom (PA.derefElement (some qo))
  let phys := pagePhys el.data.dma_mem i
  writePas qo (pasOffset i) (msb phys)
  writePas qo ((pasOffset i + 1) % 2 ^ 32) (lsb phys)

/-! ## `alloc_queue` -/

/-- The number of pages that a number of entries needs, as a 32-bit number. -/
def pageCount (size page_entry_count : ℕ) : ℕ :=
  (if size % page_entry_count ≠ 0 then size / page_entry_count + 1
   else size / page_entry_count) % 2 ^ 32

/-- The number of pages, which needs a number of entries in each page that is not zero. -/
def countPages {σ : Type} (size page_entry_count : ℕ) : Exec σ ℕ :=
  if page_entry_count = 0 then throw (.undefined .division_by_zero)
  else pure (pageCount size page_entry_count)

/-- The part of `alloc_queue` after its printout: memory for the entries, and the list of the
addresses of its pages. -/
def fillQueue (qo : PA.ElementPtr) (size : ℕ) : Exec (Env Ctx) Unit := do
  let e ← get
  let page_count ← countPages size e.qop.pool.data.page_entry_count
  Env.qopLens.zoom (PA.storeData (some qo) fun d => { d with pas_list := ⟨page_count, e.uninit⟩ })
  let dma_mem ← Env.dmaLens.zoom (MEM.allocDmaMem (HCA_PAGE_SIZE * page_count % 2 ^ 32))
  Env.qopLens.zoom (PA.storeData (some qo) fun d => { d with dma_mem := dma_mem })
  forRange page_count () (recordPage qo)
  Env.qopLens.zoom (PA.storeData (some qo) fun d => { d with start := d.dma_mem.virt, head := 0 })

/-- `alloc_queue`. A UAR page is taken before the object is accessed. -/
def allocQueue (size : ℕ) : Exec (Env Ctx) PA.ElementPtr := do
  let qo ← Env.qopLens.zoom (PA.allocPage (kind Unit Ctx))
  let uarp ← Env.uarLens.zoom (PA.allocPage (UAR.kind Unit))
  match qo with
  | none => throw (.undefined .null_deref)
  | some qo =>
    Env.qopLens.zoom (PA.storeData (some qo) fun d => { d with uarp := uarp, size := size })
    -- The index of the UAR page is printed.
    let _ ← Env.uarLens.zoom (PA.derefElement uarp)
    fillQueue qo size
    return qo

/-- `qo->data.uarp->data.uar.index`. -/
def uarIndex (qo : PA.ElementPtr) : Exec (Env Ctx) ℕ := do
  let el ← Env.qopLens.zoom (PA.derefElement (some qo))
  let uar ← Env.uarLens.zoom (PA.derefElement el.data.uarp)
  return uar.data.index

/-- `index_queue`. -/
def indexQueue (qo : PA.ElementPtr) : Exec (State Ctx) Unit := do
  let el ← PA.derefElement (some qo)
  PA.modifyPool fun p =>
    { p with data.index := Function.update p.data.index el.data.id.toNat (some qo) }

/-- `get_queue`: null for a number that is not in the index. -/
def getQueue (id : Word) : Exec (State Ctx) (Option PA.ElementPtr) := do
  let s ← get
  return s.pool.data.index id.toNat

/-! ## `free_queue` -/

/-- `UAR::free_page`. -/
def freeUar (uarp : Option PA.ElementPtr) : Exec (UAR.State Unit) Unit :=
  match uarp with
  | none => throw (.undefined .null_deref)
  | some up => PA.freePage (UAR.kind Unit) up

/-- `free_queue`. The pages are counted once more. -/
def freeQueue (id : ℕ) : Exec (Env Ctx) Unit := do
  let e ← get
  Env.qopLens.zoom (PA.modifyPool fun p =>
    { p with data.index := Function.update p.data.index id none })
  match e.qop.pool.data.index id with
  | none => throw (.undefined .null_deref)
  | some qo =>
    let el ← Env.qopLens.zoom (PA.derefElement (some qo))
    let page_count ← countPages el.data.size e.qop.pool.data.page_entry_count
    Env.uarLens.zoom (freeUar el.data.uarp)
    Env.dmaLens.zoom (MEM.freeDmaMem (HCA_PAGE_SIZE * page_count % 2 ^ 32) el.data.dma_mem)
    Env.qopLens.zoom (PA.freePage (kind Unit Ctx) qo)

end L4Rdma.Q
