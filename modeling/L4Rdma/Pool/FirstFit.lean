import L4Rdma.Pool.Spec
import L4Rdma.Pool.Kinds

/-!
# First fit

`allocPage` takes the first unused element of a pool, in the order of the list of blocks and of the
elements of a block, and adds a block only when no block has one. For this the pool does not have to
be one that the driver can reach: it is enough that its list is linked and its counters are right
(`Counted`), so its `size` may be beyond its `max`. A pool that is not beyond it never has more
blocks than are needed for `max` elements (`FirstFit.block_count_le`).
-/

namespace L4Rdma.PA

open Lib

variable {W PD BD ED : Type} {k : Kind W PD BD ED} {s s' s₁ : State W PD BD ED}
  {l l' l₁ l₂ : List BlockPtr} {b : BlockPtr} {blk : Block BD ED} {e : ElementPtr} {i : ℕ}

/-- The blocks of the pool are those of `l`, and the counters of the pool are right. -/
structure Counted (s : State W PD BD ED) (l : List BlockPtr) : Prop extends Linked s none l where
  element_count : ∀ b ∈ l, ∀ blk, s.heap.block b = some blk →
    blk.element_count = usedCount s.pool.block_size blk.start
  size_eq : s.pool.size = (l.map s.heap.count).sum
  block_size_pos : 1 ≤ s.pool.block_size

/-- The number of blocks that `max` elements need, `max / block_size` rounded up. -/
def Pool.blockLimit (p : Pool PD) : ℕ := (p.max + p.block_size - 1) / p.block_size

/-- The place `e` is the first one in the blocks of `l` whose element is not used. -/
structure FirstFree (s : State W PD BD ED) (l : List BlockPtr) (e : ElementPtr) : Prop where
  index_lt : e.index < s.pool.block_size
  unused : ¬ UsedAt s l e
  before : ∀ i < e.index, UsedAt s l ⟨e.block, i⟩
  blocks : ∃ l₁ l₂, l = l₁ ++ e.block :: l₂ ∧ ∀ b ∈ l₁, Full s b

/-- The element `e` is taken in the step from `s` to `s'`, in which the list of blocks goes from `l`
to `l'`. -/
structure FirstFit (s s' : State W PD BD ED) (l l' : List BlockPtr) (e : ElementPtr) : Prop where
  counted : Counted s' l'
  /-- Where some block is not full, the element is the first unused one. -/
  fits : ¬ (∀ b ∈ l, Full s b) → l' = l ∧ FirstFree s l e
  /-- Where every block is full, it is the first one of a new block. -/
  grows : (∀ b ∈ l, Full s b) → l' = l ++ [s.heap.fresh] ∧ e = ⟨s.heap.fresh, 0⟩
  used : ∀ e', UsedAt s' l' e' ↔ UsedAt s l e' ∨ e' = e
  elem : ∀ e', e'.block ∈ l → s'.heap.elem e' =
    if e' = e then (s.heap.elem e').map fun el => { el with used := true } else s.heap.elem e'
  element_count : ∀ b ∈ l', s'.heap.count b =
    (if b ∈ l then s.heap.count b else 0) + if b = e.block then 1 else 0
  size : s'.pool.size = s.pool.size + 1
  max : s'.pool.max = s.pool.max
  block_size : s'.pool.block_size = s.pool.block_size
  data : s'.pool.data = s.pool.data
  block_count_le : s.pool.size ≤ s.pool.max → s.pool.block_count ≤ s.pool.blockLimit →
    s'.pool.block_count ≤ s'.pool.blockLimit

/-! ## Full blocks -/

/-- The counts of the blocks, in a pool that is counted. -/
theorem Counted.count_eq (h : Counted s l) (hb : b ∈ l) (hblk : s.heap.block b = some blk) :
    s.heap.count b = usedCount s.pool.block_size blk.start := by
  rw [Heap.count_of_block hblk]
  exact h.element_count b hb blk hblk

/-- All elements of a full block are counted. -/
theorem Counted.count_of_full (h : Counted s l) (hb : b ∈ l) (hfull : Full s b) :
    s.heap.count b = s.pool.block_size := by
  obtain ⟨blk, hblk, hge⟩ := hfull
  have hcount := h.element_count b hb blk hblk
  have hle := usedCount_le s.pool.block_size blk.start
  rw [Heap.count_of_block hblk]
  omega

/-- A pool whose blocks are full has a multiple of `block_size` elements in use. -/
theorem Counted.size_of_full (h : Counted s l) (hfull : ∀ b ∈ l, Full s b) :
    s.pool.size = l.length * s.pool.block_size := by
  have hcounts : l.map s.heap.count = l.map fun _ => s.pool.block_size :=
    List.map_congr_left fun b hb => h.count_of_full hb (hfull b hb)
  rw [h.size_eq, hcounts, List.map_const', List.sum_replicate_nat]

/-- A pool that is full up to the last element of its blocks, but not up to `max`, has room for one
more block. -/
theorem Counted.length_lt_blockLimit (h : Counted s l) (hfull : ∀ b ∈ l, Full s b)
    (hlt : s.pool.size < s.pool.max) : l.length < s.pool.blockLimit := by
  have hpos := h.block_size_pos
  have hsize := h.size_of_full hfull
  have hmul : (l.length + 1) * s.pool.block_size =
      l.length * s.pool.block_size + s.pool.block_size := Nat.succ_mul _ _
  unfold Pool.blockLimit
  rw [Nat.lt_iff_add_one_le, Nat.le_div_iff_mul_le hpos]
  omega

/-! ## Taking an element -/

/-- What an element is after an element of a block has been used. -/
theorem elem_put_use {size : ℕ} (hblk : s.heap.block b = some blk) (e' : ElementPtr) :
    (s.put b (blk.use i) size).heap.elem e' =
      if e' = ⟨b, i⟩ then (s.heap.elem e').map fun el => { el with used := true }
      else s.heap.elem e' := by
  obtain ⟨c, j⟩ := e'
  by_cases hc : c = b
  · subst hc
    have hset : (s.put c (blk.use i) size).heap.block c = some (blk.use i) := Heap.set_block_same
    rw [Heap.elem_of_block hset, Heap.elem_of_block hblk]
    by_cases hj : j = i
    · simp [hj, Block.use, Block.setElement]
    · simp [hj, Block.use, Block.setElement]
  · have hset : (s.put b (blk.use i) size).heap.block c = s.heap.block c :=
      Heap.set_block_of_ne hc
    rw [if_neg (by simp [hc]), Heap.elem, hset, Heap.elem]

/-- What the counts are after an element of a block has been used. -/
theorem count_put_use {size : ℕ} (hblk : s.heap.block b = some blk) (c : BlockPtr) :
    (s.put b (blk.use i) size).heap.count c = s.heap.count c + if c = b then 1 else 0 := by
  by_cases hc : c = b
  · subst hc
    have hset : (s.put c (blk.use i) size).heap.block c = some (blk.use i) := Heap.set_block_same
    rw [if_pos rfl, Heap.count_of_block hset, Heap.count_of_block hblk]
    rfl
  · rw [if_neg hc]
    exact Heap.count_set_of_ne hc

/-- Using an unused element keeps the counters right. -/
theorem Counted.use (h : Counted s l) (hb : b ∈ l) (hblk : s.heap.block b = some blk)
    (hi : i < s.pool.block_size) (hu : (blk.start i).used = false) :
    Counted (s.put b (blk.use i) (s.pool.size + 1)) l := by
  have hlinked : Linked (s.put b (blk.use i) (s.pool.size + 1)) none l :=
    by refine h.toLinked.put hb hblk ?_ ?_ _ <;> rfl
  refine ⟨hlinked, fun c hc blkc hblkc => ?_, ?_, h.block_size_pos⟩
  · by_cases hcb : c = b
    · have hset : (s.put b (blk.use i) (s.pool.size + 1)).heap.block b = some (blk.use i) :=
        Heap.set_block_same
      obtain rfl : blk.use i = blkc := Option.some.inj (hset.symm.trans (hcb ▸ hblkc))
      show blk.element_count + 1 = _
      rw [h.element_count b hb blk hblk]
      exact (usedCount_use hi hu rfl).symm
    · have hset : (s.put b (blk.use i) (s.pool.size + 1)).heap.block c = s.heap.block c :=
        Heap.set_block_of_ne hcb
      exact h.element_count c hc blkc (hset.symm.trans hblkc)
  · have hsum := h.toLinked.sum_count_put hb hblk (blk.use i) (s.pool.size + 1)
    have hone : (blk.use i).element_count = blk.element_count + 1 := rfl
    rw [← h.size_eq] at hsum
    show s.pool.size + 1 = _
    omega

/-- Adding a block keeps the counters right. -/
theorem Grown.counted {bd : BD} {ed : ℕ → ED → ED} {w : W} (hg : Grown s s₁ bd ed w)
    (h : Counted s l) (hlinked : Linked s₁ none (l ++ [s.heap.fresh])) :
    Counted s₁ (l ++ [s.heap.fresh]) := by
  obtain ⟨hold, hnew⟩ := hg.count h.toLinked
  refine ⟨hlinked, fun c hc blkc hblkc => ?_, ?_, hg.same.block_size ▸ h.block_size_pos⟩
  · rw [hg.same.block_size]
    have hbody : s₁.heap.body c = some (blkc.element_count, blkc.data, blkc.start) := by
      rw [Heap.body, hblkc]
      rfl
    by_cases hcf : c = s.heap.fresh
    · rw [hcf, hg.new] at hbody
      simp only [Option.some.injEq, Prod.mk.injEq] at hbody
      rw [← hbody.1, ← hbody.2.2]
      exact (blockOk_initElements _ _ _ _).count_eq
    · have hmem : c ∈ l := by
        rw [List.mem_append, List.mem_singleton] at hc
        exact hc.resolve_right hcf
      obtain ⟨blk, hblk, hsame⟩ := Option.map_eq_some_iff.mp ((hg.body c hcf).symm.trans hbody)
      simp only [Prod.mk.injEq] at hsame
      rw [← hsame.1, ← hsame.2.2]
      exact h.element_count c hmem blk hblk
  · rw [hg.same.size, List.map_append, List.sum_append, List.map_congr_left hold]
    simp [hnew, ← h.size_eq]

/-- The first unused element of the first block that has one is the first one of the pool. -/
theorem firstFree_of_split (hl : l = l₁ ++ b :: l₂) (hfull : ∀ c ∈ l₁, Full s c)
    (hblk : s.heap.block b = some blk) (hi : firstUnused blk s.pool.block_size = some i) :
    FirstFree s l ⟨b, i⟩ := by
  obtain ⟨hlt, hunused, hbefore⟩ := firstUnused_spec hi
  have hmem : b ∈ l := hl ▸ List.mem_append_right _ List.mem_cons_self
  refine ⟨hlt, ?_, fun j hj => ⟨hmem, Nat.lt_trans hj hlt, blk, hblk, hbefore j hj⟩,
    l₁, l₂, hl, hfull⟩
  rintro ⟨-, -, blk', hblk', hu⟩
  obtain rfl : blk = blk' := Option.some.inj (hblk.symm.trans hblk')
  rw [hunused] at hu
  cases hu

/-- A block with an unused element is not full. -/
theorem Counted.not_full (h : Counted s l) (hb : b ∈ l) (hblk : s.heap.block b = some blk)
    (hi : i < s.pool.block_size) (hu : (blk.start i).used = false) : ¬ Full s b := fun hfull => by
  have hall := (h.count_eq hb hblk).symm.trans (h.count_of_full hb hfull)
  rw [usedCount_eq_iff.mp hall i hi] at hu
  cases hu

/-- The first unused element is taken of a pool that has one. -/
theorem firstFit_found (h : Counted s l) (hl : l = l₁ ++ b :: l₂) (hfull : ∀ c ∈ l₁, Full s c)
    (hblk : s.heap.block b = some blk) (hi : firstUnused blk s.pool.block_size = some i) :
    FirstFit s (s.put b (blk.use i) (s.pool.size + 1)) l l ⟨b, i⟩ := by
  obtain ⟨hlt, hunused, -⟩ := firstUnused_spec hi
  have hmem : b ∈ l := hl ▸ List.mem_append_right _ List.mem_cons_self
  have hnot : ¬ ∀ c ∈ l, Full s c := fun hall => h.not_full hmem hblk hlt hunused (hall b hmem)
  exact {
    counted := h.use hmem hblk hlt hunused
    fits := fun _ => ⟨rfl, firstFree_of_split hl hfull hblk hi⟩
    grows := fun hall => absurd hall hnot
    used := usedAt_put_use hmem hblk hlt
    elem := fun e' _ => elem_put_use hblk e'
    element_count := fun c hc => by rw [if_pos hc, count_put_use hblk]
    size := rfl
    max := rfl
    block_size := rfl
    data := rfl
    block_count_le := fun _ hle => hle }

/-- The first element of a new block is taken of a pool whose blocks are full. -/
theorem firstFit_grows {bd : BD} {ed : ℕ → ED → ED} {w : W} (h : Counted s l)
    (hne : s.pool.size ≠ s.pool.max) (hfull : ∀ c ∈ l, Full s c) (hg : Grown s s₁ bd ed w)
    (hlinked : Linked s₁ none (l ++ [s.heap.fresh])) (hblk : s₁.heap.block s.heap.fresh = some blk)
    (hi : firstUnused blk s₁.pool.block_size = some 0) :
    FirstFit s (s₁.put s.heap.fresh (blk.use 0) (s₁.pool.size + 1)) l (l ++ [s.heap.fresh])
      ⟨s.heap.fresh, 0⟩ := by
  -- The pool with the new block is one in which that block is the first that is not full.
  have h₁ : Counted s₁ (l ++ [s.heap.fresh]) := hg.counted h hlinked
  obtain ⟨hold, hnew⟩ := hg.count h.toLinked
  have hnot : s.heap.fresh ∉ l := fun hmem => Nat.lt_irrefl _ (h.lt_fresh hmem)
  have hmem : s.heap.fresh ∈ l ++ [s.heap.fresh] := List.mem_append_right _ List.mem_cons_self
  have hlast : l ++ [s.heap.fresh] = l ++ s.heap.fresh :: [] := rfl
  have hstep := firstFit_found h₁ hlast (fun c hc => ?_) hblk hi
  · exact {
      counted := hstep.counted
      -- All blocks were full before, so there was no place to be preferred.
      fits := fun hnot => absurd hfull hnot
      grows := fun _ => ⟨rfl, rfl⟩
      used := fun e' => by rw [hstep.used, hg.usedAt fun c hc => h.lt_fresh hc]
      elem := fun e' he' => by
        have hne' : e'.block ≠ s.heap.fresh := fun heq => hnot (heq ▸ he')
        rw [hstep.elem e' (List.mem_append_left _ he'), Heap.elem_of_body (hg.body _ hne')]
      -- The old blocks keep their counts, and the new one starts from none.
      element_count := fun c hc => by
        rw [hstep.element_count c hc, if_pos hc]
        rcases List.mem_append.mp hc with hc | hc
        · rw [hold c hc, if_pos hc]
        · rw [List.mem_singleton.mp hc, hnew, if_neg hnot]
      size := hstep.size.trans (by rw [hg.same.size])
      max := hstep.max.trans hg.same.max
      block_size := hstep.block_size.trans hg.same.block_size
      data := hstep.data.trans hg.same.data
      -- Since not all elements are used, another block is within the limit.
      block_count_le := fun hle _ => by
        have hlt := h.length_lt_blockLimit hfull (lt_of_le_of_ne hle hne)
        have hcount : s₁.pool.block_count = l.length + 1 := by simp [hlinked.block_count]
        have hlimit : s₁.pool.blockLimit = s.pool.blockLimit := by
          rw [Pool.blockLimit, hg.same.max, hg.same.block_size, Pool.blockLimit]
        show s₁.pool.block_count ≤ s₁.pool.blockLimit
        rw [hcount, hlimit]
        exact hlt }
  · -- A block that was full is full still.
    obtain ⟨blkc, hblkc⟩ := h₁.exist c (List.mem_append_left _ hc)
    have hcount := (hold c hc).trans (h.count_of_full hc (hfull c hc))
    rw [Heap.count_of_block hblkc] at hcount
    exact ⟨blkc, hblkc, by rw [hcount, hg.same.block_size]; exact Nat.lt_irrefl _⟩

/-- `allocPage` on a pool that is counted returns null when `size` is `max`, and otherwise takes the
first unused element, or throws, when there is none and a block cannot be had. -/
theorem allocPage_firstFit (k : Kind W PD BD ED) (h : Counted s l) :
    (s.pool.size = s.pool.max ∧ allocPage k s = .ok none s) ∨
    (s.pool.size ≠ s.pool.max ∧ ∃ e s' l', allocPage k s = .ok (some e) s' ∧
      FirstFit s s' l l' e) ∨
    (s.pool.size ≠ s.pool.max ∧ (∀ b ∈ l, Full s b) ∧
      (∃ err w, k.setup s.pool s.world = .error err w) ∧
      ∃ m s', allocPage k s = .error (.thrown m) s' ∧ s'.pool = s.pool ∧
        (∀ b ∈ l, s'.heap.block b = s.heap.block b) ∧ Counted s' l) := by
  have hout := allocPage_cases (k := k) h.toLinked h.block_size_pos h.element_count
  revert hout
  generalize allocPage k s = res
  intro hout
  cases hout with
  | full hmax => exact .inl ⟨hmax, rfl⟩
  | found hne l₁ l₂ b blk i hl hfull hblk hi =>
    exact .inr (.inl ⟨hne, _, _, _, rfl, firstFit_found h hl hfull hblk hi⟩)
  | grows hne hfull bd ed w s₁ blk hset hgrown hlinked hblk hi =>
    exact .inr (.inl ⟨hne, _, _, _, rfl, firstFit_grows h hne hfull hgrown hlinked hblk hi⟩)
  | throws hne hfull m s₁ hset hs =>
    have hblocks : ∀ b ∈ l, s₁.heap.block b = s.heap.block b := fun b hb =>
      hs.block b (h.lt_fresh hb)
    refine .inr (.inr ⟨hne, hfull, ⟨_, _, hset⟩, m, s₁, rfl, hs.pool, hblocks,
      h.toLinked.congr hs, fun b hb blk hblk => ?_, ?_, hs.pool ▸ h.block_size_pos⟩)
    · rw [hs.pool]
      exact h.element_count b hb blk (hblocks b hb ▸ hblk)
    · rw [hs.pool, h.size_eq, List.map_congr_left fun b hb => ?_]
      rw [Heap.count, Heap.count, hblocks b hb]

/-! ## A pool beyond its bound -/

/-- A pool of UAR pages with one block of two pages, both used. -/
def twoUsedPages (max : ℕ) : State Unit UAR.PD Unit UAR.Uar where
  world := ()
  pool := {
    max := max, size := 2, block_size := 2, block_count := 1, data := ⟨⟨0, 0⟩⟩, start := some 0,
    «end» := some 0 }
  heap := {
    block := fun b => if b = 0 then some ⟨2, none, none, (), fun _ => ⟨true, ⟨0, 0⟩, 0⟩⟩ else none
    fresh := 1
    uninit := fun _ => ⟨0, none, none, (), fun _ => ⟨false, ⟨0, 0⟩, 0⟩⟩ }

/-- The numbers of this pool are those of its block. -/
theorem twoUsedPages_counted (max : ℕ) : Counted (twoUsedPages max) [0] where
  seg := ⟨rfl, rfl, rfl⟩
  last b hb := by cases hb; rfl
  block_count := rfl
  exist b hb := by
    obtain rfl := List.mem_singleton.mp hb
    exact ⟨_, rfl⟩
  unborn b hb := if_neg (Nat.ne_of_gt hb)
  pre_nil _ := rfl
  element_count b hb blk hblk := by
    obtain rfl := List.mem_singleton.mp hb
    cases hblk
    exact (usedCount_eq_iff.mpr fun _ _ => rfl).symm
  size_eq := rfl
  block_size_pos := Nat.le_succ 1

/-- The third page of a pool for three pages is the first one of a new block. -/
theorem twoUsedPages_firstFit : ∃ e s' l',
    allocPage (UAR.kind Unit) (twoUsedPages 3) = .ok (some e) s' ∧
      FirstFit (twoUsedPages 3) s' [0] l' e := by
  rcases allocPage_firstFit (UAR.kind Unit) (twoUsedPages_counted 3) with
    ⟨hmax, -⟩ | ⟨-, htaken⟩ | ⟨-, -, ⟨err, w, hset⟩, -⟩
  · exact absurd hmax (by decide)
  · exact htaken
  · cases hset

/-- A pool with more used pages than `max` gets a block that `max` pages do not need. -/
theorem twoUsedPages_beyond_limit :
    Counted (twoUsedPages 1) [0] ∧
      (twoUsedPages 1).pool.block_count ≤ (twoUsedPages 1).pool.blockLimit ∧
      ∃ e s', allocPage (UAR.kind Unit) (twoUsedPages 1) = .ok (some e) s' ∧
        ¬ s'.pool.block_count ≤ s'.pool.blockLimit :=
  ⟨twoUsedPages_counted 1, by decide, _, _, rfl, by decide⟩

end L4Rdma.PA
