import L4Rdma.Pool.Model
import L4Rdma.Word

/-!
# The three kinds of pools

`server/src/mem.{h,cc}`, `server/src/uar.{h,cc}` and `server/src/queue.{h,cc}`: memory pages, which
are cut out of DMA memory that a block gets for itself, UAR pages, which are places in a region of
the device, and queue objects.
-/

namespace L4Rdma

open Lib

/-- `HCA_PAGE_SIZE`: the page size of the hardware in bytes. -/
abbrev HCA_PAGE_SIZE : ℕ := 4096

/-! ## DMA memory -/

namespace MEM

/-- A range of DMA addresses. -/
structure Region where
  phys : ℕ
  size : ℕ
  deriving DecidableEq

/-- The address is in the range. -/
def Region.Covers (r : Region) (p : ℕ) : Prop := r.phys ≤ p ∧ p < r.phys + r.size

/-- What is left of a range without another one: the parts before and behind it. -/
def Region.minus (r g : Region) : List Region :=
  [⟨r.phys, min (r.phys + r.size) g.phys - r.phys⟩,
    ⟨max r.phys (g.phys + g.size), r.phys + r.size - max r.phys (g.phys + g.size)⟩].filter
      fun part => 0 < part.size

/-- The kernel's services behind `alloc_dma_mem` and `free_dma_mem`, which are not part of the
driver. What they answer may depend on the number of the request. -/
structure L4Re where
  /-- `L4_SUPERPAGESHIFT`. -/
  superpageShift : ℕ
  /-- Whether a capability slot for a dataspace is free. -/
  makeSharedCap : ℕ → Bool
  /-- Whether that much memory can be allocated. -/
  memAlloc : ℕ → ℕ → Bool
  /-- Where memory of that size is attached. -/
  attach : ℕ → ℕ → Option ℕ
  /-- The DMA address at which memory of that size is mapped, given what is mapped already. -/
  map : ℕ → List Region → ℕ → Option ℕ
  /-- Whether the region is unmapped. -/
  unmap : ℕ → Region → Bool

/-- The DMA space of the device. -/
structure Dma where
  services : L4Re
  /-- The number of requests made so far. -/
  requests : ℕ
  /-- What is mapped. -/
  mapped : List Region

/-- Chunk of DMA memory. -/
structure DmaMem where
  virt : ℕ
  phys : ℕ
  deriving DecidableEq

/-- The size that `alloc_dma_mem` asks for: a whole number of superpages. -/
def L4Re.superpages (r : L4Re) (size : ℕ) : ℕ :=
  let superpage := 2 ^ r.superpageShift
  if size % superpage ≠ 0 then (size / superpage + 1) * superpage % 2 ^ 64 else size

/-- `alloc_dma_mem`. -/
def allocDmaMem (size : ℕ) : Exec Dma DmaMem := do
  let d ← get
  let n := d.requests
  modify fun d => { d with requests := d.requests + 1 }
  let size := d.services.superpages size
  if !d.services.makeSharedCap n then throw (.thrown "Failed to allocate DMA Dataspace")
  if !d.services.memAlloc n size then throw (.thrown "Failed to allocate DMA memory.")
  match d.services.attach n size with
  | none => throw (.thrown "Failed to attach DMA memory")
  | some virt =>
    match d.services.map n d.mapped size with
    | none => throw (.thrown "Failed to setup memory region for DMA.")
    | some phys =>
      modify fun d => { d with mapped := ⟨phys, size⟩ :: d.mapped }
      return ⟨virt, phys⟩

/-- `free_dma_mem`. Just the range of that size is unmapped. -/
def freeDmaMem (size : ℕ) (m : DmaMem) : Exec Dma Unit := do
  let d ← get
  modify fun d => { d with requests := d.requests + 1 }
  if !d.services.unmap d.requests ⟨m.phys, size⟩ then throw (.thrown "")
  modify fun d => { d with mapped := d.mapped.flatMap fun r => r.minus ⟨m.phys, size⟩ }

/-- The data of the pool of memory pages: the index of the used pages by their address. -/
structure PD where
  index : ℕ → Option PA.ElementPtr

/-- The data of a memory page. -/
structure ED where
  virt : ℕ
  phys : ℕ

/-- The number of bytes of a block, `HCA_PAGE_SIZE * block_size`. -/
def blockBytes (p : PA.Pool PD) : ℕ := HCA_PAGE_SIZE * p.block_size % 2 ^ 64

/-- Page `i` of the DMA memory of a block. -/
def page (m : DmaMem) (i : ℕ) : ED where
  virt := (m.virt + i * HCA_PAGE_SIZE) % 2 ^ 64
  phys := (m.phys + i * HCA_PAGE_SIZE) % 2 ^ 64

/-- An exception is neither of the other ways to stop. -/
theorem not_forall_ne_thrown (m : String) : ¬ ∀ m', Stop.thrown m ≠ .thrown m' := fun h => h m rfl

/-- `alloc_dma_mem` returns or throws. -/
theorem avoids_allocDmaMem (size : ℕ) :
    Avoids (fun e => ∀ m, e ≠ .thrown m) (allocDmaMem size) := by
  unfold allocDmaMem
  refine avoids_get.bind fun d => (avoids_modify _).bind fun _ => ?_
  refine avoids_ite (fun _ => avoids_throw_bind (not_forall_ne_thrown _)) fun _ => ?_
  refine avoids_ite (fun _ => avoids_throw_bind (not_forall_ne_thrown _)) fun _ => ?_
  split
  · exact avoids_throw (not_forall_ne_thrown _)
  · split
    · exact avoids_throw (not_forall_ne_thrown _)
    · exact (avoids_modify _).bind fun _ => avoids_pure _

/-- `free_dma_mem` returns or throws. -/
theorem avoids_freeDmaMem (size : ℕ) (m : DmaMem) :
    Avoids (fun e => ∀ m, e ≠ .thrown m) (freeDmaMem size m) := by
  unfold freeDmaMem
  refine avoids_get.bind fun d => (avoids_modify _).bind fun _ => ?_
  exact avoids_ite (fun _ => avoids_throw_bind (not_forall_ne_thrown _)) fun _ => avoids_modify _

/-- The pool of memory pages: a block gets DMA memory for all its pages. -/
def kind : PA.Kind Dma PD DmaMem ED where
  setup p := do
    let m ← allocDmaMem (blockBytes p)
    return (m, fun i _ => page m i)
  release p m := freeDmaMem (blockBytes p) m
  setup_avoids _ := (avoids_allocDmaMem _).bind fun _ => avoids_pure _
  release_avoids _ m := avoids_freeDmaMem _ m

/-- The state of the pool of memory pages. -/
abbrev State : Type := PA.State Dma PD DmaMem ED

/-- `MEM::alloc_page`: takes a page, and enters it in the index. -/
def allocPage : Exec State PA.ElementPtr := do
  match ← PA.allocPage kind with
  | none => throw (.undefined .null_deref)
  | some mp =>
    let blk ← PA.deref (some mp.block)
    let phys := (blk.start mp.index).data.phys
    PA.modifyPool fun p => { p with data := ⟨Function.update p.data.index phys (some mp)⟩ }
    return mp

/-- `MEM::free_page`: takes the page at the address out of the index, and gives it back. -/
def freePage (phys : ℕ) : Exec State Unit := do
  let s ← get
  let n := s.pool.data.index phys
  PA.modifyPool fun p => { p with data := ⟨Function.update p.data.index phys none⟩ }
  match n with
  | none => throw (.undefined .null_deref)
  | some mp => PA.freePage kind mp

end MEM

/-! ## UAR pages -/

namespace UAR

/-- UAR page properties. -/
structure Uar where
  index : ℕ
  addr : ℕ
  deriving DecidableEq

/-- The data of the pool of UAR pages. -/
structure PD where
  base : Uar

/-- UAR page `i` of a block. -/
def page (base : Uar) (i : ℕ) : Uar where
  index := (base.index + i) % 2 ^ 32
  addr := (base.addr + i * HCA_PAGE_SIZE) % 2 ^ 64

/-- The pool of UAR pages: the pages of each block are counted from the pool's base page. -/
def kind (W : Type) : PA.Kind W PD Unit Uar where
  setup p := pure ((), fun i _ => page p.data.base i)
  release _ _ := pure ()
  setup_avoids _ := avoids_pure _
  release_avoids _ _ := avoids_pure _

end UAR

/-! ## Queue objects -/

namespace Q

/-- Generic HCA queue. `start` is the address of its memory, and `size` the number of entries. -/
structure Queue where
  start : ℕ
  size : ℕ
  head : ℕ
  dma_mem : MEM.DmaMem

/-- The data of a queue object. `Ctx` is what the kind of queue keeps behind `q_ctx`. -/
structure ED (Ctx : Type) extends Queue where
  id : Word
  uarp : Option PA.ElementPtr
  pas_list : Buf
  q_ctx : Ctx

/-- The data of a pool of queue objects: the index of its queues by their numbers. -/
structure PD where
  page_entry_count : ℕ
  index : ℕ → Option PA.ElementPtr

/-- The state of a pool of queue objects. -/
abbrev State (Ctx : Type) : Type := PA.State Unit PD Unit (ED Ctx)

/-- A pool of queue objects. The memory that `alloc_block` gets for `q_ctx` is not initialized, and
neither are the other fields, so an element keeps what its memory contains. -/
def kind (W Ctx : Type) : PA.Kind W PD Unit (ED Ctx) where
  setup _ := pure ((), fun _ d => d)
  release _ _ := pure ()
  setup_avoids _ := avoids_pure _
  release_avoids _ _ := avoids_pure _

end Q

end L4Rdma
