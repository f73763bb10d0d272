import L4Rdma.Machine

/-!
# The pool allocator

`server/src/pool.h`. A pool hands out elements. It keeps them in blocks of `block_size` elements,
allocated one by one as they are needed, freed as soon as none of their elements is used, and held
in a doubly linked list between `start` and `end`.

A block is known by the identity of its allocation, which is never used again once the block is
destroyed, so an access through a pointer that has outlived its block is seen (`use_after_free`).
`alloc_block` and `free_block`, the functions that a pool carries for its kind of block, differ from
kind to kind in how the content of a block is made and given back. The three kinds of the driver
are `Kind`s: the memory page pool, the pool of UAR pages, and the pools of queue objects.
-/

namespace L4Rdma.PA

open Lib

/-- The identity of a block. -/
abbrev BlockPtr : Type := ℕ

/-- A place in a block's array of elements: `Element*`. -/
structure ElementPtr where
  /-- The block whose array it is. -/
  block : BlockPtr
  /-- The index in the array. -/
  index : ℕ
  deriving DecidableEq, Repr

/-- An element holds data. -/
structure Element (ED : Type) where
  used : Bool
  data : ED
  block : BlockPtr

/-- A block with `block_size` elements. -/
structure Block (BD ED : Type) where
  element_count : ℕ
  next : Option BlockPtr
  prev : Option BlockPtr
  data : BD
  start : ℕ → Element ED

/-- A pool of a number of blocks. `end` has no meaning when `start` is null. -/
structure Pool (PD : Type) where
  max : ℕ
  size : ℕ
  block_size : ℕ
  block_count : ℕ
  data : PD
  start : Option BlockPtr
  «end» : Option BlockPtr

/-- The blocks that have been allocated and not freed, by their identity. -/
structure Heap (BD ED : Type) where
  /-- The block of that identity, or `none` before it is created and after it is destroyed. -/
  block : BlockPtr → Option (Block BD ED)
  /-- The identity of the next block. -/
  fresh : BlockPtr
  /-- What the memory returned by `malloc` for a block happens to contain. -/
  uninit : BlockPtr → Block BD ED

/-- Replaces the block of one identity. -/
def Heap.set {BD ED : Type} (h : Heap BD ED) (b : BlockPtr) (blk : Option (Block BD ED)) :
    Heap BD ED :=
  { h with block := Function.update h.block b blk }

/-- What the functions of a pool work on: the pool, its blocks, and the rest of the world. -/
structure State (W PD BD ED : Type) where
  world : W
  pool : Pool PD
  heap : Heap BD ED

/-- What distinguishes the kinds of pools: how the content of a new block is made, and what is done
with it before the block is destroyed. Both work on the rest of the world, and may throw. -/
structure Kind (W PD BD ED : Type) where
  /-- The data of a new block, and of each of its elements, given what their memory contains. -/
  setup : Pool PD → Exec W (BD × (ℕ → ED → ED))
  /-- Gives back what the block's data stands for. -/
  release : Pool PD → BD → Exec W Unit
  /-- Making the content of a block returns or throws. -/
  setup_avoids : ∀ p, Avoids (fun e => ∀ m, e ≠ .thrown m) (setup p)
  /-- Giving it back returns or throws. -/
  release_avoids : ∀ p bd, Avoids (fun e => ∀ m, e ≠ .thrown m) (release p bd)

variable {W PD BD ED : Type}

/-! ## Access to memory -/

/-- The part of the state outside of the pool. -/
def worldLens : Lens (State W PD BD ED) W where
  view s := s.world
  set w s := { s with world := w }

/-- Reads the block that a pointer points to. -/
def deref (b : Option BlockPtr) : Exec (State W PD BD ED) (Block BD ED) := fun s =>
  match b with
  | none => .error (.undefined .null_deref) s
  | some b =>
    match s.heap.block b with
    | none => .error (.undefined .use_after_free) s
    | some blk => .ok blk s

/-- Writes to the block that a pointer points to. -/
def store (b : Option BlockPtr) (f : Block BD ED → Block BD ED) :
    Exec (State W PD BD ED) Unit := fun s =>
  match b with
  | none => .error (.undefined .null_deref) s
  | some b =>
    match s.heap.block b with
    | none => .error (.undefined .use_after_free) s
    | some blk => .ok () { s with heap := s.heap.set b (some (f blk)) }

/-- Writes to the pool. -/
def modifyPool (f : Pool PD → Pool PD) : Exec (State W PD BD ED) Unit :=
  modify fun s => { s with pool := f s.pool }

/-- Replaces one element of a block. -/
def Block.setElement (blk : Block BD ED) (i : ℕ) (f : Element ED → Element ED) : Block BD ED :=
  { blk with start := Function.update blk.start i (f (blk.start i)) }

/-- Reads the element that a pointer points to. -/
def derefElement (e : Option ElementPtr) : Exec (State W PD BD ED) (Element ED) :=
  match e with
  | none => throw (.undefined .null_deref)
  | some e => do
    let blk ← deref (some e.block)
    return blk.start e.index

/-- Writes to the data of the element that a pointer points to. -/
def storeData (e : Option ElementPtr) (f : ED → ED) : Exec (State W PD BD ED) Unit :=
  match e with
  | none => throw (.undefined .null_deref)
  | some e => store (some e.block) fun blk =>
    blk.setElement e.index fun el => { el with data := f el.data }

/-! ## The list of blocks -/

/-- Removes a block from the pool's list of blocks. -/
def removeBlockFromPool (b : BlockPtr) : Exec (State W PD BD ED) Unit := do
  let blk ← deref (some b)
  match blk.prev with
  | none =>
    match blk.next with
    | none => modifyPool fun p => { p with start := none }
    | some n => modifyPool fun p => { p with start := some n }
  | some q =>
    match blk.next with
    | none =>
      store (some q) fun blk => { blk with next := none }
      modifyPool fun p => { p with «end» := some q }
    | some n =>
      store (some q) fun blk => { blk with next := some n }
      store (some n) fun blk => { blk with prev := some q }
  modifyPool fun p => { p with block_count := p.block_count - 1 }

/-- Adds a block at the end of the pool's list of blocks. -/
def addBlockToPool (b : BlockPtr) : Exec (State W PD BD ED) Unit := do
  let p := (← get).pool
  match p.start with
  | none => modifyPool fun p => { p with start := some b, «end» := some b }
  | some _ =>
    store p.end fun blk => { blk with next := some b }
    store (some b) fun blk => { blk with prev := p.end }
    modifyPool fun p => { p with «end» := some b }
  modifyPool fun p => { p with block_count := p.block_count + 1 }

/-- Allocates and initializes a new block. -/
def createBlock : Exec (State W PD BD ED) BlockPtr := fun s =>
  let b := s.heap.fresh
  let blk := { s.heap.uninit b with element_count := 0, next := none, prev := none }
  .ok b { s with heap := { s.heap.set b (some blk) with fresh := b + 1 } }

/-- Frees an unused block. -/
def destroyBlock (b : BlockPtr) : Exec (State W PD BD ED) Unit := do
  let _ ← deref (some b)
  modify fun s => { s with heap := s.heap.set b none }

/-! ## The functions that a pool carries -/

/-- The initialization of a new block's elements: none is used, and each knows its block. -/
def initElements (n : ℕ) (b : BlockPtr) (ed : ℕ → ED → ED) (start : ℕ → Element ED) :
    ℕ → Element ED := fun i =>
  if i < n then { used := false, data := ed i (start i).data, block := b } else start i

/-- `alloc_block`: creates a block, makes its content, and adds it to the pool. -/
def allocBlock (k : Kind W PD BD ED) : Exec (State W PD BD ED) Unit := do
  let b ← createBlock
  let p := (← get).pool
  let (bd, ed) ← worldLens.zoom (k.setup p)
  store (some b) fun blk =>
    { blk with data := bd, start := initElements p.block_size b ed blk.start }
  addBlockToPool b

/-- `free_block`: removes a block from the pool, gives its content back, and destroys it. -/
def freeBlock (k : Kind W PD BD ED) (b : BlockPtr) : Exec (State W PD BD ED) Unit := do
  removeBlockFromPool b
  let blk ← deref (some b)
  let p := (← get).pool
  worldLens.zoom (k.release p blk.data)
  destroyBlock b

/-! ## Elements -/

/-- The first of the first `n` elements of a block that is not used. -/
def firstUnused (blk : Block BD ED) (n : ℕ) : Option ℕ :=
  (List.range n).find? fun i => !(blk.start i).used

/-- The walk of `allocPage` along the blocks, for at most `fuel` blocks. -/
def allocPageFrom (k : Kind W PD BD ED) :
    ℕ → Option BlockPtr → Exec (State W PD BD ED) ElementPtr
  | 0, _ => throw .diverges
  | fuel + 1, b => do
    let blk ← deref b
    let p := (← get).pool
    match (if blk.element_count < p.block_size then firstUnused blk p.block_size else none), b with
    | some i, some bp =>
      modifyPool fun p => { p with size := p.size + 1 }
      store b fun blk => { blk with element_count := blk.element_count + 1 }
      store b fun blk => blk.setElement i fun e => { e with used := true }
      return ⟨bp, i⟩
    | _, _ =>
      if blk.next = none then allocBlock k
      let blk ← deref b
      allocPageFrom k fuel blk.next

/-- `PA::alloc_page`: gets an available element from the pool, or null when the pool is full.

The walk has no bound of its own. It is given enough fuel to visit every block ever created and the
one that it may add, so it runs out of it only in a list that leads back into itself, where the
code walks for ever. -/
def allocPage (k : Kind W PD BD ED) : Exec (State W PD BD ED) (Option ElementPtr) := do
  let s ← get
  if s.pool.size = s.pool.max then return none
  if s.pool.block_count = 0 then allocBlock k
  let s ← get
  let e ← allocPageFrom k (s.heap.fresh + 2) s.pool.start
  return some e

/-- `PA::free_page`: returns an unused element to the pool. -/
def freePage (k : Kind W PD BD ED) (e : ElementPtr) : Exec (State W PD BD ED) Unit := do
  let blk ← deref (some e.block)
  let b := (blk.start e.index).block
  modifyPool fun p => { p with size := p.size - 1 }
  store (some b) fun blk => { blk with element_count := blk.element_count - 1 }
  store (some e.block) fun blk => blk.setElement e.index fun el => { el with used := false }
  let blk ← deref (some b)
  if blk.element_count = 0 then freeBlock k b

end L4Rdma.PA
