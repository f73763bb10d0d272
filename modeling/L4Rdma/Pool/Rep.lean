import L4Rdma.Pool.Model
import L4Rdma.Lib.Links

/-!
# Well-formed pools

`Linked s pre l` says that the blocks of the pool are those of the list `l`: they are linked both
ways from `start` on, they exist, the last one is `end`, and `block_count` is their number. The
first one points back to `pre`, which should be null. The code lets it point to a destroyed block
instead, after the first block of the list was removed, so `pre` is kept as a parameter.

`Rep s pre l` adds the counters: the `element_count` of each block is the number of its used
elements, each element knows its block, `size` is the sum of the counts, and it is at most `max`.
-/

namespace L4Rdma.PA

open Lib

variable {W PD BD ED : Type}

/-! ## Reading the heap -/

/-- The block after a block. -/
def Heap.nx (h : Heap BD ED) (b : BlockPtr) : Option BlockPtr := (h.block b).bind Block.next

/-- The block before a block. -/
def Heap.pv (h : Heap BD ED) (b : BlockPtr) : Option BlockPtr := (h.block b).bind Block.prev

/-- The `element_count` of a block. -/
def Heap.count (h : Heap BD ED) (b : BlockPtr) : ℕ := ((h.block b).map Block.element_count).getD 0

/-- What a block holds besides its links: its count, its data, and its elements. -/
def Heap.body (h : Heap BD ED) (b : BlockPtr) : Option (ℕ × BD × (ℕ → Element ED)) :=
  (h.block b).map fun blk => (blk.element_count, blk.data, blk.start)

variable {h : Heap BD ED} {b c : BlockPtr} {blk : Block BD ED} {x : Option (Block BD ED)}

/-- The block is the one that has been stored. -/
@[simp] theorem Heap.set_block_same : (h.set b x).block b = x := Function.update_self _ _ _

/-- The other blocks stay as they are. -/
theorem Heap.set_block_of_ne (hne : c ≠ b) : (h.set b x).block c = h.block c :=
  Function.update_of_ne hne _ _

/-- Storing a block creates none. -/
@[simp] theorem Heap.set_fresh : (h.set b x).fresh = h.fresh := rfl

/-- Storing a block leaves what new memory contains. -/
@[simp] theorem Heap.set_uninit : (h.set b x).uninit = h.uninit := rfl

/-- The next pointer of a block that exists. -/
theorem Heap.nx_of_block (hb : h.block b = some blk) : h.nx b = blk.next := by
  simp [Heap.nx, hb]

/-- The pointer of such a block to the one before it. -/
theorem Heap.pv_of_block (hb : h.block b = some blk) : h.pv b = blk.prev := by
  simp [Heap.pv, hb]

/-- Its number of used elements. -/
theorem Heap.count_of_block (hb : h.block b = some blk) : h.count b = blk.element_count := by
  simp [Heap.count, hb]

/-- A block with the same body has the same count. -/
theorem Heap.count_of_body {h' : Heap BD ED} (hb : h'.body b = h.body b) :
    h'.count b = h.count b := by
  unfold Heap.body at hb
  unfold Heap.count
  cases hx : h.block b <;> cases hy : h'.block b <;> simp_all

/-- Writing one block leaves the links of the others. -/
theorem Heap.links_set_of_ne (hne : c ≠ b) :
    (h.set b x).nx c = h.nx c ∧ (h.set b x).pv c = h.pv c := by
  simp [Heap.nx, Heap.pv, Heap.set_block_of_ne hne]

/-- Writing one block leaves the bodies of the others. -/
theorem Heap.body_set_of_ne (hne : c ≠ b) : (h.set b x).body c = h.body c := by
  simp [Heap.body, Heap.set_block_of_ne hne]

/-- Writing the links of a block leaves all bodies. -/
theorem Heap.body_set_links {blk' : Block BD ED} (hb : h.block b = some blk)
    (hsame : (blk'.element_count, blk'.data, blk'.start) = (blk.element_count, blk.data, blk.start)) :
    (h.set b (some blk')).body c = h.body c := by
  by_cases hc : c = b
  · subst hc
    rw [Heap.body, Heap.body, Heap.set_block_same, hb, Option.map_some, Option.map_some, hsame]
  · exact Heap.body_set_of_ne hc

/-- Two heaps with the same bodies have the same blocks. -/
theorem Heap.block_none_iff {h' : Heap BD ED} (hbody : h'.body c = h.body c) :
    h'.block c = none ↔ h.block c = none := by
  have hnone : ∀ k : Heap BD ED, k.body c = none ↔ k.block c = none := fun k => Option.map_eq_none_iff
  rw [← hnone, ← hnone, hbody]

/-- A block with the same body exists if and only if the other does. -/
theorem Heap.exists_block_iff {h' : Heap BD ED} (hbody : h'.body c = h.body c) :
    (∃ blk, h'.block c = some blk) ↔ ∃ blk, h.block c = some blk := by
  rw [← Option.ne_none_iff_exists', ← Option.ne_none_iff_exists']
  exact not_congr (Heap.block_none_iff hbody)

/-- Writing one block leaves the counts of the others. -/
theorem Heap.count_set_of_ne (hne : c ≠ b) : (h.set b x).count c = h.count c :=
  Heap.count_of_body (Heap.body_set_of_ne hne)

/-! ## Reading and writing through pointers -/

variable {s : State W PD BD ED}

/-- Reading a block that exists. -/
theorem deref_of_block (hb : s.heap.block b = some blk) : deref (some b) s = .ok blk s := by
  simp [deref, hb]

/-- Reading a block that has been destroyed. -/
theorem deref_of_destroyed (hb : s.heap.block b = none) :
    deref (some b) s = .error (.undefined .use_after_free) s := by
  simp [deref, hb]

/-- Writing to a block that exists. -/
theorem store_of_block {f : Block BD ED → Block BD ED} (hb : s.heap.block b = some blk) :
    store (some b) f s = .ok () { s with heap := s.heap.set b (some (f blk)) } := by
  simp [store, hb]

/-- Writing to a block that has been destroyed. -/
theorem store_of_destroyed {f : Block BD ED → Block BD ED} (hb : s.heap.block b = none) :
    store (some b) f s = .error (.undefined .use_after_free) s := by
  simp [store, hb]

/-- A sequence that begins with a change to the pool's own fields. -/
@[simp] theorem modifyPool_bind {α : Type} {g : Pool PD → Pool PD}
    {f : Unit → Exec (State W PD BD ED) α} :
    (modifyPool g >>= f) s = f () { s with pool := g s.pool } := rfl

/-- Changing the pool's own fields always succeeds. -/
@[simp] theorem modifyPool_apply {g : Pool PD → Pool PD} :
    modifyPool g s = .ok () { s with pool := g s.pool } := rfl

/-! ## The list of blocks -/

/-- The blocks of the pool are those of `l`, linked both ways, the first one back to `pre`. -/
structure Linked (s : State W PD BD ED) (pre : Option BlockPtr) (l : List BlockPtr) : Prop where
  /-- The links between `start` and the last block. -/
  seg : Seg s.heap.nx s.heap.pv pre s.pool.start l none
  /-- The last block is `end`. -/
  last : ∀ b, l.getLast? = some b → s.pool.end = some b
  /-- `block_count` is the number of blocks. -/
  block_count : s.pool.block_count = l.length
  /-- The blocks of the list exist. -/
  exist : ∀ b ∈ l, ∃ blk, s.heap.block b = some blk
  /-- Identities from `fresh` on are not in use. -/
  unborn : ∀ b, s.heap.fresh ≤ b → s.heap.block b = none
  /-- In an empty list nothing points back. -/
  pre_nil : l = [] → pre = none

variable {pre : Option BlockPtr} {l : List BlockPtr}

/-- The pool points to the first block. -/
theorem Linked.start_eq (hs : Linked s pre l) : s.pool.start = l.head? := hs.seg.head

/-- No block is in the list twice. -/
theorem Linked.nodup (hs : Linked s pre l) : l.Nodup := hs.seg.nodup

/-- A block of the list is older than the next one to be created. -/
theorem Linked.lt_fresh (hs : Linked s pre l) (hb : b ∈ l) : b < s.heap.fresh := by
  by_contra hge
  obtain ⟨blk, hblk⟩ := hs.exist b hb
  rw [hs.unborn b (Nat.le_of_not_lt hge)] at hblk
  cases hblk

/-! ## The counters -/

/-- The number of used elements among the first `n`. -/
def usedCount (n : ℕ) (start : ℕ → Element ED) : ℕ :=
  ((Finset.range n).filter fun i => (start i).used).card

/-- The count of a block is the number of its used elements, and its elements know it. -/
structure BlockOk (n : ℕ) (b : BlockPtr) (count : ℕ) (start : ℕ → Element ED) : Prop where
  count_eq : count = usedCount n start
  owner : ∀ i, i < n → (start i).block = b

/-- The pool is well formed, with the blocks of `l`, and the first block points back to `pre`,
which is null or a destroyed block. -/
structure Rep (s : State W PD BD ED) (pre : Option BlockPtr) (l : List BlockPtr) : Prop
    extends Linked s pre l where
  ok : ∀ b ∈ l, ∀ n d a, s.heap.body b = some (n, d, a) → BlockOk s.pool.block_size b n a
  size_eq : s.pool.size = (l.map s.heap.count).sum
  size_le : s.pool.size ≤ s.pool.max
  stale : ∀ q, pre = some q → q < s.heap.fresh ∧ s.heap.block q = none

/-- The element `e` is in a block of `l` and used. -/
def UsedAt (s : State W PD BD ED) (l : List BlockPtr) (e : ElementPtr) : Prop :=
  e.block ∈ l ∧ e.index < s.pool.block_size ∧
    ∃ blk, s.heap.block e.block = some blk ∧ (blk.start e.index).used = true

/-- A block has no more used elements than elements. -/
theorem usedCount_le (n : ℕ) (start : ℕ → Element ED) : usedCount n start ≤ n := by
  have := Finset.card_filter_le (Finset.range n) fun i => (start i).used
  rwa [Finset.card_range] at this

/-- When all elements are counted, all are used. -/
theorem usedCount_eq_iff {n : ℕ} {start : ℕ → Element ED} :
    usedCount n start = n ↔ ∀ i, i < n → (start i).used = true := by
  have hcard := Finset.card_filter_eq_iff (s := Finset.range n) (p := fun i => (start i).used = true)
  rw [Finset.card_range] at hcard
  unfold usedCount
  rw [hcard]
  simp

/-- A block with a free element has a first one. -/
theorem firstUnused_of_lt {n : ℕ} (hn : usedCount n blk.start < n) :
    ∃ i, firstUnused blk n = some i := by
  rw [← Option.isSome_iff_exists, firstUnused, List.find?_isSome]
  by_contra hne
  have hall : ∀ i ∈ Finset.range n, (blk.start i).used = true := by
    simpa using hne
  rw [usedCount, Finset.filter_true_of_mem hall, Finset.card_range] at hn
  omega

/-- The first unused element is one of the first `n`, is unused, and comes after used ones only. -/
theorem firstUnused_spec {n i : ℕ} (hi : firstUnused blk n = some i) :
    i < n ∧ (blk.start i).used = false ∧ ∀ j < i, (blk.start j).used = true := by
  rw [firstUnused, List.find?_range_eq_some] at hi
  obtain ⟨hu, hmem, hbefore⟩ := hi
  refine ⟨List.mem_range.mp hmem, by simpa using hu, fun j hj => ?_⟩
  simpa using hbefore j hj

/-- Using an element adds one to the number of used ones. -/
theorem usedCount_use {n i : ℕ} {start : ℕ → Element ED} {e : Element ED} (hi : i < n)
    (hu : (start i).used = false) (he : e.used = true) :
    usedCount n (Function.update start i e) = usedCount n start + 1 := by
  have hset : (Finset.range n).filter (fun j => (Function.update start i e j).used) =
      insert i ((Finset.range n).filter fun j => (start j).used) := by
    ext j
    by_cases hj : j = i
    · subst hj; simp [hi, he]
    · simp [hj]
  unfold usedCount
  rw [hset, Finset.card_insert_of_notMem (by simp [hu])]

/-- Giving an element up takes one from the number of used ones. -/
theorem usedCount_give {n i : ℕ} {start : ℕ → Element ED} {e : Element ED} (hi : i < n)
    (hu : (start i).used = true) (he : e.used = false) :
    usedCount n (Function.update start i e) + 1 = usedCount n start := by
  have hback : Function.update (Function.update start i e) i (start i) = start := by
    rw [Function.update_idem, Function.update_eq_self]
  calc usedCount n (Function.update start i e) + 1
      = usedCount n (Function.update (Function.update start i e) i (start i)) :=
        (usedCount_use hi (by simp [he]) hu).symm
    _ = usedCount n start := by rw [hback]

/-- A sum over a list without repetitions in which one term changes. -/
theorem sum_map_change {l : List BlockPtr} {f g : BlockPtr → ℕ} (hl : l.Nodup) (hb : b ∈ l)
    (hfg : ∀ c ∈ l, c ≠ b → g c = f c) : (l.map g).sum + f b = (l.map f).sum + g b := by
  obtain ⟨l₁, l₂, rfl⟩ := List.append_of_mem hb
  have hnot : b ∉ l₁ ∧ b ∉ l₂ := by
    rw [List.nodup_middle, List.nodup_cons] at hl
    simpa using hl.1
  have h₁ : l₁.map g = l₁.map f := List.map_congr_left fun c hc =>
    hfg c (by simp [hc]) fun he => hnot.1 (he ▸ hc)
  have h₂ : l₂.map g = l₂.map f := List.map_congr_left fun c hc =>
    hfg c (by simp [hc]) fun he => hnot.2 (he ▸ hc)
  simp only [List.map_append, List.map_cons, List.sum_append, List.sum_cons, h₁, h₂]
  omega

end L4Rdma.PA
