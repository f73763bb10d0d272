import L4Rdma.Pool.Rep

/-!
# Allocating an element

What `allocPage` does on a pool whose blocks are linked and whose counts are right: which of the
outcomes it has, and the state it leaves (`allocPage_cases`). `Rep.use` and `Grown.rep` say that a
well-formed pool is well formed again in the states so reached, and `Rep.give` says it of an element
that is given up.
-/

namespace L4Rdma.PA

open Lib

variable {W PD BD ED : Type} {k : Kind W PD BD ED} {s : State W PD BD ED}
  {pre : Option BlockPtr} {l : List BlockPtr} {b c : BlockPtr} {blk : Block BD ED} {i : ℕ}

/-- A block with one more used element. -/
def Block.use (blk : Block BD ED) (i : ℕ) : Block BD ED :=
  { blk with element_count := blk.element_count + 1 }.setElement i fun e => { e with used := true }

/-- A block with one used element less. -/
def Block.give (blk : Block BD ED) (i : ℕ) : Block BD ED :=
  { blk with element_count := blk.element_count - 1 }.setElement i fun e => { e with used := false }

/-- The state with a new content for one block and a new `size`. -/
def State.put (s : State W PD BD ED) (b : BlockPtr) (blk : Block BD ED) (size : ℕ) :
    State W PD BD ED :=
  { s with pool := { s.pool with size := size }, heap := s.heap.set b (some blk) }

/-! ## Writing a block of the list -/

/-- A block of the list can be written, if its links stay. -/
theorem Linked.put (h : Linked s pre l) (hb : b ∈ l) (hblk : s.heap.block b = some blk)
    {blk' : Block BD ED} (hn : blk'.next = blk.next) (hp : blk'.prev = blk.prev) (size : ℕ) :
    Linked (s.put b blk' size) pre l := by
  have hset : (s.put b blk' size).heap = s.heap.set b (some blk') := rfl
  refine ⟨?_, h.last, h.block_count, ?_, ?_, h.pre_nil⟩
  · refine h.seg.congr fun a _ => ?_
    by_cases ha : a = b
    · subst ha
      simp [hset, Heap.nx, Heap.pv, hblk, hn, hp]
    · rw [hset]
      exact Heap.links_set_of_ne ha
  · intro a ha
    by_cases hab : a = b
    · exact ⟨blk', by rw [hset, hab, Heap.set_block_same]⟩
    · rw [hset, Heap.set_block_of_ne hab]
      exact h.exist a ha
  · intro a ha
    have hab : a ≠ b := fun hab =>
      absurd (h.lt_fresh hb) (Nat.not_lt_of_le (hab ▸ ha))
    rw [hset, Heap.set_block_of_ne hab]
    exact h.unborn a ha

/-- The sum of the counts changes with the count of the block that is written. -/
theorem Linked.sum_count_put (h : Linked s pre l) (hb : b ∈ l) (hblk : s.heap.block b = some blk)
    (blk' : Block BD ED) (size : ℕ) :
    (l.map (s.put b blk' size).heap.count).sum + blk.element_count =
      (l.map s.heap.count).sum + blk'.element_count := by
  have hset : (s.put b blk' size).heap = s.heap.set b (some blk') := rfl
  have hsum := sum_map_change (f := s.heap.count) (g := (s.put b blk' size).heap.count)
    h.nodup hb fun a _ ha => by rw [hset, Heap.count_set_of_ne ha]
  have hnew : (s.put b blk' size).heap.count b = blk'.element_count :=
    Heap.count_of_block Heap.set_block_same
  rwa [hnew, Heap.count_of_block hblk] at hsum

/-- A block of a well-formed pool can be written, if its links stay and its counters fit. -/
theorem Rep.put (h : Rep s pre l) (hb : b ∈ l) (hblk : s.heap.block b = some blk)
    {blk' : Block BD ED} {size : ℕ} (hn : blk'.next = blk.next) (hp : blk'.prev = blk.prev)
    (hok : BlockOk s.pool.block_size b blk'.element_count blk'.start)
    (hsize : size + blk.element_count = s.pool.size + blk'.element_count)
    (hle : size ≤ s.pool.max) : Rep (s.put b blk' size) pre l := by
  have hset : (s.put b blk' size).heap = s.heap.set b (some blk') := rfl
  refine ⟨h.toLinked.put hb hblk hn hp size, ?_, ?_, hle, ?_⟩
  · intro a ha n d st hbody
    by_cases hab : a = b
    · subst hab
      rw [hset, Heap.body, Heap.set_block_same] at hbody
      simp only [Option.map_some, Option.some.injEq, Prod.mk.injEq] at hbody
      obtain ⟨rfl, -, rfl⟩ := hbody
      exact hok
    · rw [hset, Heap.body_set_of_ne hab] at hbody
      exact h.ok a ha n d st hbody
  · have hsum := h.toLinked.sum_count_put hb hblk blk' size
    rw [← h.size_eq] at hsum
    show size = _
    omega
  · intro q hq
    have hqb : q ≠ b := fun hqb => by
      rw [hqb] at hq
      rw [(h.stale b hq).2] at hblk
      cases hblk
    rw [hset, Heap.set_block_of_ne hqb]
    exact h.stale q hq

/-- The counters of a block of the list. -/
theorem Rep.blockOk (h : Rep s pre l) (hb : b ∈ l) (hblk : s.heap.block b = some blk) :
    BlockOk s.pool.block_size b blk.element_count blk.start :=
  h.ok b hb _ _ _ (by rw [Heap.body, hblk]; rfl)

/-- Using an unused element keeps the pool well formed. -/
theorem Rep.use (h : Rep s pre l) (hb : b ∈ l) (hblk : s.heap.block b = some blk)
    (hi : i < s.pool.block_size) (hu : (blk.start i).used = false)
    (hlt : s.pool.size < s.pool.max) : Rep (s.put b (blk.use i) (s.pool.size + 1)) pre l := by
  have hok := h.blockOk hb hblk
  refine h.put hb hblk rfl rfl ⟨?_, ?_⟩ ?_ hlt
  · show blk.element_count + 1 = _
    rw [hok.count_eq]
    exact (usedCount_use hi hu rfl).symm
  · intro j hj
    show (Function.update blk.start i _ j).block = b
    by_cases hji : j = i
    · subst hji
      rw [Function.update_self]
      exact hok.owner j hj
    · rw [Function.update_of_ne hji]
      exact hok.owner j hj
  · show s.pool.size + 1 + blk.element_count = s.pool.size + (blk.element_count + 1)
    omega

/-- The `size` of a pool is at least the count of each of its blocks. -/
theorem Rep.count_le_size (h : Rep s pre l) (hb : b ∈ l) : s.heap.count b ≤ s.pool.size := by
  rw [h.size_eq]
  exact List.single_le_sum (fun _ _ => Nat.zero_le _) _ (List.mem_map_of_mem hb)

/-- A block with a used element has a positive count. -/
theorem BlockOk.count_pos {n count : ℕ} {start : ℕ → Element ED} (h : BlockOk n b count start)
    (hi : i < n) (hu : (start i).used = true) : 0 < count := by
  rw [h.count_eq]
  exact Finset.card_pos.mpr ⟨i, by simp [hi, hu]⟩

/-- Giving a used element up keeps the pool well formed. -/
theorem Rep.give (h : Rep s pre l) (hb : b ∈ l) (hblk : s.heap.block b = some blk)
    (hi : i < s.pool.block_size) (hu : (blk.start i).used = true) :
    Rep (s.put b (blk.give i) (s.pool.size - 1)) pre l := by
  have hok := h.blockOk hb hblk
  have hpos := hok.count_pos hi hu
  have hle := h.count_le_size hb
  rw [Heap.count_of_block hblk] at hle
  refine h.put hb hblk rfl rfl ⟨?_, ?_⟩ ?_ ((Nat.sub_le _ _).trans h.size_le)
  · show blk.element_count - 1 =
      usedCount _ (Function.update blk.start i { blk.start i with used := false })
    have hgive := usedCount_give (e := { blk.start i with used := false }) hi hu rfl
    rw [hok.count_eq]
    omega
  · intro j hj
    show (Function.update blk.start i _ j).block = b
    by_cases hji : j = i
    · subst hji
      rw [Function.update_self]
      exact hok.owner j hj
    · rw [Function.update_of_ne hji]
      exact hok.owner j hj
  · show s.pool.size - 1 + blk.element_count = s.pool.size + (blk.element_count - 1)
    omega

/-! ## Adding a block -/

/-- Two pools that differ at most in their list of blocks. -/
structure Pool.Same (p q : Pool PD) : Prop where
  max : p.max = q.max
  size : p.size = q.size
  block_size : p.block_size = q.block_size
  data : p.data = q.data

/-- A block without links makes a list of its own. -/
theorem Linked.single (h : Linked s pre []) (hblk : s.heap.block b = some blk)
    (hn : blk.next = none) (hp : blk.prev = none) :
    Linked { s with pool := { s.pool with
      start := some b, «end» := some b, block_count := s.pool.block_count + 1 } } none [b] := by
  refine ⟨⟨rfl, ?_, ?_⟩, ?_, ?_, ?_, h.unborn, fun hne => absurd hne (List.cons_ne_nil _ _)⟩
  · rw [Heap.pv_of_block hblk, hp]
  · rw [seg_nil, Heap.nx_of_block hblk, hn]
  · rintro c hc
    simpa using hc
  · simp [h.block_count]
  · simpa using ⟨blk, hblk⟩

/-- A list becomes longer when its last block `q` and a block that is not in it are linked, and nothing
else in the heap changes. -/
theorem Linked.snoc {q : BlockPtr} {blkq : Block BD ED} {heap : Heap BD ED}
    (h : Linked s pre (l ++ [q])) (hb : b ∉ l ++ [q]) (hblk : s.heap.block b = some blk)
    (hn : blk.next = none) (hq : s.heap.block q = some blkq)
    (hbq : heap.block q = some { blkq with next := some b })
    (hbb : heap.block b = some { blk with prev := some q })
    (hbc : ∀ c, c ≠ b → c ≠ q → heap.block c = s.heap.block c)
    (hbody : ∀ c, heap.body c = s.heap.body c) (hfresh : heap.fresh = s.heap.fresh) :
    Linked { s with
      pool := { s.pool with «end» := some b, block_count := s.pool.block_count + 1 }
      heap := heap } pre (l ++ [q] ++ [b]) := by
  -- Neither `q` nor the new block is one of the others, so their links stay.
  have hnodup := h.nodup
  rw [List.nodup_append] at hnodup
  refine ⟨?_, ?_, ?_, ?_, ?_, fun hne => absurd hne (by simp)⟩
  · refine h.seg.link_last (fun a ha => ?_) ?_ ?_ ?_ ?_
    · have haq : a ≠ q := fun he => hnodup.2.2 a ha q (by simp) he
      have hab : a ≠ b := fun he => hb (by simp [← he, ha])
      simp [Heap.nx, Heap.pv, hbc a hab haq]
    · -- `q` still points back to the block before it.
      rw [Heap.pv_of_block hbq, Heap.pv_of_block hq]
    · -- It now points to the new block, which points back and ends the list.
      rw [Heap.nx_of_block hbq]
    · rw [Heap.pv_of_block hbb]
    · rw [Heap.nx_of_block hbb]
      exact hn
  · intro c hc
    simpa using hc
  · simp [h.block_count]
  · intro c hc
    apply (Heap.exists_block_iff (hbody c)).mpr
    rcases List.mem_append.mp hc with hc | hc
    · exact h.exist c hc
    · exact ⟨blk, by rw [List.mem_singleton.mp hc, hblk]⟩
  · intro c hc
    exact (Heap.block_none_iff (hbody c)).mpr (h.unborn c (hfresh ▸ hc))

/-- Adding a block that exists, has no links, and is not in the list yet puts it at the end of the
list, and leaves the bodies of all blocks. -/
theorem addBlockToPool_spec (h : Linked s pre l) (hblk : s.heap.block b = some blk)
    (hb : b ∉ l) (hn : blk.next = none) (hp : blk.prev = none) :
    ∃ s₁, addBlockToPool b s = .ok () s₁ ∧ Linked s₁ pre (l ++ [b]) ∧ s₁.world = s.world ∧
      s₁.pool.Same s.pool ∧ s₁.heap.fresh = s.heap.fresh ∧
      ∀ c, s₁.heap.body c = s.heap.body c := by
  rcases List.eq_nil_or_concat l with rfl | ⟨l', q, rfl⟩
  · -- The list was empty.
    obtain rfl := h.pre_nil rfl
    have hstart : s.pool.start = none := h.start_eq
    refine ⟨{ s with pool := { s.pool with
        start := some b, «end» := some b, block_count := s.pool.block_count + 1 } }, ?_,
      h.single hblk hn hp, rfl, ⟨rfl, rfl, rfl, rfl⟩, rfl, fun _ => rfl⟩
    rw [addBlockToPool]
    simp only [get_bind, hstart]
    rfl
  · -- The list ended in `q`, which is linked with the new block.
    rw [List.concat_eq_append] at h hb ⊢
    obtain ⟨blkq, hq⟩ := h.exist q (by simp)
    have hqb : b ≠ q := fun he => hb (by simp [he])
    have hend : s.pool.end = some q := h.last q (by simp)
    obtain ⟨d, hstart⟩ : ∃ d, s.pool.start = some d := by
      rw [h.start_eq]
      cases l' <;> simp
    -- Both blocks are written to, one after the other.
    generalize hh : (s.heap.set q (some { blkq with next := some b })).set b
      (some { blk with prev := some q }) = heap
    have hbq : heap.block q = some { blkq with next := some b } := by
      rw [← hh, Heap.set_block_of_ne hqb.symm, Heap.set_block_same]
    have hbb : heap.block b = some { blk with prev := some q } := by
      rw [← hh, Heap.set_block_same]
    have hbc : ∀ c, c ≠ b → c ≠ q → heap.block c = s.heap.block c := fun c hcb hcq => by
      rw [← hh, Heap.set_block_of_ne hcb, Heap.set_block_of_ne hcq]
    have hblk' : (s.heap.set q (some { blkq with next := some b })).block b = some blk := by
      rw [Heap.set_block_of_ne hqb, hblk]
    -- Only their links have changed, and no content.
    have hbody : ∀ c, heap.body c = s.heap.body c := fun c => by
      rw [← hh, Heap.body_set_links hblk' (by rfl), Heap.body_set_links hq (by rfl)]
    have hfresh : heap.fresh = s.heap.fresh := by rw [← hh]; rfl
    refine ⟨{ s with
        pool := { s.pool with «end» := some b, block_count := s.pool.block_count + 1 }
        heap := heap }, ?_, h.snoc hb hblk hn hq hbq hbb hbc hbody hfresh, rfl,
      ⟨rfl, rfl, rfl, rfl⟩, hfresh, hbody⟩
    rw [addBlockToPool]
    simp only [get_bind, hstart, hend]
    rw [bind_of_ok (store_of_block hq), bind_of_ok (store_of_block (by exact hblk'))]
    simp [hh, hstart]

/-- The pool stays, and so do all blocks that are older than the pool's next one. -/
structure Untouched (s s₁ : State W PD BD ED) : Prop where
  pool : s₁.pool = s.pool
  block : ∀ c, c < s.heap.fresh → s₁.heap.block c = s.heap.block c
  unborn : ∀ c, s₁.heap.fresh ≤ c → s₁.heap.block c = none
  fresh : s.heap.fresh ≤ s₁.heap.fresh

/-- A list of blocks survives what happens to blocks that are not older than the pool's next one. -/
theorem Linked.congr {s₁ : State W PD BD ED} (h : Linked s pre l) (hs : Untouched s s₁) :
    Linked s₁ pre l := by
  refine ⟨?_, by rw [hs.pool]; exact h.last, by rw [hs.pool]; exact h.block_count, ?_, hs.unborn,
    h.pre_nil⟩
  · rw [hs.pool]
    refine h.seg.congr fun a ha => ?_
    simp [Heap.nx, Heap.pv, hs.block a (h.lt_fresh ha)]
  · intro c hc
    rw [hs.block c (h.lt_fresh hc)]
    exact h.exist c hc

/-- So does a well-formed pool. -/
theorem Rep.congr {s₁ : State W PD BD ED} (h : Rep s pre l) (hs : Untouched s s₁) :
    Rep s₁ pre l := by
  have hbody : ∀ c ∈ l, s₁.heap.body c = s.heap.body c := fun c hc => by
    rw [Heap.body, hs.block c (h.lt_fresh hc), Heap.body]
  refine ⟨h.toLinked.congr hs, ?_, ?_, by rw [hs.pool]; exact h.size_le, ?_⟩
  · intro c hc n d a hb
    rw [hs.pool]
    exact h.ok c hc n d a (hbody c hc ▸ hb)
  · rw [hs.pool, h.size_eq,
      List.map_congr_left fun c hc => (Heap.count_of_body (hbody c hc)).symm]
  · intro q hq
    obtain ⟨hlt, hdead⟩ := h.stale q hq
    exact ⟨Nat.lt_of_lt_of_le hlt hs.fresh, by rw [hs.block q hlt]; exact hdead⟩

/-- What `allocBlock` does to a state when it succeeds: one new block, with the content that
`setup` made, none of whose elements is used. -/
structure Grown (s s₁ : State W PD BD ED) (bd : BD) (ed : ℕ → ED → ED) (w : W) : Prop where
  world : s₁.world = w
  same : s₁.pool.Same s.pool
  fresh : s₁.heap.fresh = s.heap.fresh + 1
  body : ∀ c, c ≠ s.heap.fresh → s₁.heap.body c = s.heap.body c
  new : s₁.heap.body s.heap.fresh = some (0, bd,
    initElements s.pool.block_size s.heap.fresh ed (s.heap.uninit s.heap.fresh).start)

/-- None of the elements of a new block is used, and each knows its block. -/
theorem blockOk_initElements (n : ℕ) (b : BlockPtr) (ed : ℕ → ED → ED) (st : ℕ → Element ED) :
    BlockOk n b 0 (initElements n b ed st) where
  count_eq := by
    refine (Finset.card_eq_zero.mpr (Finset.filter_eq_empty_iff.mpr fun i hi => ?_)).symm
    simp [initElements, Finset.mem_range.mp hi]
  owner i hi := by simp [initElements, hi]

/-- Allocating a block fails when its content cannot be made, and then leaves the pool as it was, in the
world in which making the content has failed. -/
theorem allocBlock_throws (h : Linked s pre l) {e : Stop} {w : W}
    (hset : k.setup s.pool s.world = .error e w) :
    ∃ m s₁, e = .thrown m ∧ s₁.world = w ∧ allocBlock k s = .error (.thrown m) s₁ ∧
      Untouched s s₁ := by
  obtain ⟨m, rfl⟩ : ∃ m, e = .thrown m := by
    have := k.setup_avoids s.pool s.world e w hset
    push Not at this
    exact this
  let blk : Block BD ED :=
    { s.heap.uninit s.heap.fresh with element_count := 0, next := none, prev := none }
  let heap : Heap BD ED :=
    { s.heap.set s.heap.fresh (some blk) with fresh := s.heap.fresh + 1 }
  refine ⟨m, ⟨w, s.pool, heap⟩, rfl, rfl, ?_, rfl, fun c hc => Heap.set_block_of_ne (Nat.ne_of_lt hc),
    fun c hc => ?_, Nat.le_succ _⟩
  · have hcreate : createBlock s = .ok s.heap.fresh ⟨s.world, s.pool, heap⟩ := rfl
    rw [allocBlock, bind_of_ok hcreate]
    simp only [get_bind]
    exact bind_of_error (Lens.zoom_of_error hset)
  · show (s.heap.set s.heap.fresh _).block c = none
    have hc' : s.heap.fresh + 1 ≤ c := hc
    rw [Heap.set_block_of_ne (Nat.ne_of_gt hc')]
    exact h.unborn c (Nat.le_of_succ_le hc')

/-- Allocating a block adds a block with no used elements at the end of the list. -/
theorem allocBlock_ok (h : Linked s pre l) {bd : BD} {ed : ℕ → ED → ED} {w : W}
    (hset : k.setup s.pool s.world = .ok (bd, ed) w) :
    ∃ s₁, allocBlock k s = .ok () s₁ ∧ Grown s s₁ bd ed w ∧
      Linked s₁ pre (l ++ [s.heap.fresh]) := by
  -- The block as `malloc` and `create_block` make it, and then as `setup` fills it in.
  let blk : Block BD ED :=
    { s.heap.uninit s.heap.fresh with element_count := 0, next := none, prev := none }
  let heap : Heap BD ED :=
    { s.heap.set s.heap.fresh (some blk) with fresh := s.heap.fresh + 1 }
  let blk₀ : Block BD ED := { blk with
    data := bd, start := initElements s.pool.block_size s.heap.fresh ed blk.start }
  let s₀ : State W PD BD ED := ⟨w, s.pool, heap.set s.heap.fresh (some blk₀)⟩
  have hblk₀ : s₀.heap.block s.heap.fresh = some blk₀ := Heap.set_block_same
  have hother : ∀ c, c ≠ s.heap.fresh → s₀.heap.block c = s.heap.block c := fun c hc => by
    show (heap.set s.heap.fresh _).block c = _
    rw [Heap.set_block_of_ne hc]
    exact Heap.set_block_of_ne hc
  -- The new block is not in the list yet, so the list is that of before.
  have hlinked₀ : Linked s₀ pre l := h.congr ⟨rfl, fun c hc => hother c (Nat.ne_of_lt hc),
    fun c hc => by
      have hc' : s.heap.fresh + 1 ≤ c := hc
      rw [hother c (Nat.ne_of_gt hc')]
      exact h.unborn c (Nat.le_of_succ_le hc'), Nat.le_succ _⟩
  have hnot : s.heap.fresh ∉ l := fun hmem => Nat.lt_irrefl _ (h.lt_fresh hmem)
  obtain ⟨s₁, hadd, hlinked, hw, hsame, hfresh, hbody⟩ :=
    addBlockToPool_spec hlinked₀ hblk₀ hnot rfl rfl
  -- Adding it to the list touches the links only.
  have hnew : s₁.heap.body s.heap.fresh = some (0, bd, initElements s.pool.block_size
      s.heap.fresh ed (s.heap.uninit s.heap.fresh).start) := by
    rw [hbody, Heap.body, hblk₀]
    rfl
  have hbodies : ∀ c, c ≠ s.heap.fresh → s₁.heap.body c = s.heap.body c := fun c hc => by
    rw [hbody, Heap.body, hother c hc, Heap.body]
  refine ⟨s₁, ?_, ⟨hw, hsame, hfresh, hbodies, hnew⟩, hlinked⟩
  have hcreate : createBlock s = .ok s.heap.fresh ⟨s.world, s.pool, heap⟩ := rfl
  -- The three steps of the source, one after the other.
  rw [allocBlock, bind_of_ok hcreate]
  simp only [get_bind]
  rw [bind_of_ok (Lens.zoom_of_ok hset)]
  have hstore : store (some s.heap.fresh) (fun blk : Block BD ED => { blk with
      data := bd, start := initElements s.pool.block_size s.heap.fresh ed blk.start })
      (⟨w, s.pool, heap⟩ : State W PD BD ED) = .ok () s₀ :=
    store_of_block (show heap.block s.heap.fresh = some blk from Heap.set_block_same)
  exact (bind_of_ok hstore).trans hadd

/-- The counts of the old blocks stay when a block is added, and that of the new one is zero. -/
theorem Grown.count {s₁ : State W PD BD ED} {bd : BD} {ed : ℕ → ED → ED} {w : W}
    (hg : Grown s s₁ bd ed w) (h : Linked s pre l) :
    (∀ c ∈ l, s₁.heap.count c = s.heap.count c) ∧ s₁.heap.count s.heap.fresh = 0 := by
  refine ⟨fun c hc => Heap.count_of_body (hg.body c (Nat.ne_of_lt (h.lt_fresh hc))), ?_⟩
  obtain ⟨blk, hblk, hbody⟩ := Option.map_eq_some_iff.mp hg.new
  rw [Heap.count_of_block hblk]
  exact congrArg Prod.fst hbody

/-- Adding a block keeps a pool well formed. -/
theorem Grown.rep {s₁ : State W PD BD ED} {bd : BD} {ed : ℕ → ED → ED} {w : W}
    (hg : Grown s s₁ bd ed w) (h : Rep s pre l) (hlinked : Linked s₁ pre (l ++ [s.heap.fresh])) :
    Rep s₁ pre (l ++ [s.heap.fresh]) := by
  obtain ⟨hold, hnew⟩ := hg.count h.toLinked
  refine ⟨hlinked, ?_, ?_, ?_, ?_⟩
  · intro c hc n d a hb
    rw [hg.same.block_size]
    by_cases hcf : c = s.heap.fresh
    · rw [hcf, hg.new] at hb
      simp only [Option.some.injEq, Prod.mk.injEq] at hb
      obtain ⟨rfl, -, rfl⟩ := hb
      exact hcf ▸ blockOk_initElements _ _ _ _
    · rw [List.mem_append, List.mem_singleton] at hc
      rw [hg.body c hcf] at hb
      exact h.ok c (hc.resolve_right hcf) n d a hb
  · rw [hg.same.size, List.map_append, List.sum_append, List.map_congr_left hold]
    simp [hnew, ← h.size_eq]
  · rw [hg.same.size, hg.same.max]
    exact h.size_le
  · intro q hq
    obtain ⟨hlt, hdead⟩ := h.stale q hq
    have hb := hg.body q (Nat.ne_of_lt hlt)
    rw [Heap.body, Heap.body, hdead] at hb
    exact ⟨by rw [hg.fresh]; exact Nat.lt_succ_of_lt hlt, by simpa using hb⟩

/-! ## The walk along the blocks -/

/-- All elements of the block are used. -/
def Full (s : State W PD BD ED) (b : BlockPtr) : Prop :=
  ∃ blk, s.heap.block b = some blk ∧ ¬ blk.element_count < s.pool.block_size

/-- The walk takes the first unused element of the first block that has one. -/
theorem allocPageFrom_found {post : Option BlockPtr} {l₁ l₂ : List BlockPtr}
    (hblk : s.heap.block b = some blk) (hlt : blk.element_count < s.pool.block_size)
    (hi : firstUnused blk s.pool.block_size = some i) :
    ∀ {pre cur : Option BlockPtr} {fuel : ℕ},
      Seg s.heap.nx s.heap.pv pre cur (l₁ ++ b :: l₂) post → (∀ c ∈ l₁, Full s c) →
      l₁.length < fuel →
      allocPageFrom k fuel cur s = .ok ⟨b, i⟩ (s.put b (blk.use i) (s.pool.size + 1)) := by
  induction l₁ with
  | nil =>
    rintro pre cur fuel ⟨rfl, -, -⟩ - hfuel
    -- The block at hand is the one with an unused element.
    obtain ⟨fuel, rfl⟩ : ∃ n, fuel = n + 1 := ⟨fuel - 1, by simp at hfuel; omega⟩
    rw [allocPageFrom, bind_of_ok (deref_of_block hblk)]
    simp only [get_bind, if_pos hlt, hi, modifyPool_bind]
    rw [bind_of_ok (store_of_block (by exact hblk)),
      bind_of_ok (store_of_block Heap.set_block_same)]
    simp [State.put, Block.use, Heap.set]
  | cons c l₁ ih =>
    rintro pre cur fuel ⟨rfl, -, hseg⟩ hfull hfuel
    -- A full block has another one after it, and the walk goes on there.
    obtain ⟨fuel, rfl⟩ : ∃ n, fuel = n + 1 := ⟨fuel - 1, by simp at hfuel; omega⟩
    obtain ⟨blkc, hc, hnlt⟩ := hfull c List.mem_cons_self
    rw [Heap.nx_of_block hc] at hseg
    have hnext : blkc.next ≠ none := by
      cases l₁ with
      | nil => exact fun h0 => by rw [h0] at hseg; cases hseg.1
      | cons d l₁ => exact fun h0 => by rw [h0] at hseg; cases hseg.1
    rw [allocPageFrom, bind_of_ok (deref_of_block hc)]
    simp only [get_bind, if_neg hnlt, if_neg hnext]
    rw [bind_of_ok (deref_of_block hc)]
    exact ih hseg (fun d hd => hfull d (List.mem_cons_of_mem _ hd)) (by simpa using hfuel)

/-- When all blocks are full the walk ends at the last one, where it allocates a block. If that
throws, the walk throws. -/
theorem allocPageFrom_throws {m : String} {s₁ : State W PD BD ED}
    (ha : allocBlock k s = .error (.thrown m) s₁) :
    ∀ {l₁ : List BlockPtr} {pre cur : Option BlockPtr} {fuel : ℕ}, l₁ ≠ [] →
      Seg s.heap.nx s.heap.pv pre cur l₁ none → (∀ c ∈ l₁, Full s c) → l₁.length < fuel →
      allocPageFrom k fuel cur s = .error (.thrown m) s₁ := by
  intro l₁
  induction l₁ with
  | nil => exact fun hne => absurd rfl hne
  | cons c l₁ ih =>
    rintro pre cur fuel - ⟨rfl, -, hseg⟩ hfull hfuel
    obtain ⟨fuel, rfl⟩ : ∃ n, fuel = n + 1 := ⟨fuel - 1, by simp at hfuel; omega⟩
    obtain ⟨blkc, hc, hnlt⟩ := hfull c List.mem_cons_self
    rw [Heap.nx_of_block hc] at hseg
    rw [allocPageFrom, bind_of_ok (deref_of_block hc)]
    simp only [get_bind, if_neg hnlt]
    cases l₁ with
    | nil =>
      rw [seg_nil] at hseg
      simp only [if_pos hseg]
      exact bind_of_error ha
    | cons d l₁ =>
      have hnext : blkc.next ≠ none := by rw [hseg.1]; exact Option.some_ne_none d
      simp only [if_neg hnext]
      rw [bind_of_ok (deref_of_block hc)]
      exact ih (List.cons_ne_nil d l₁) hseg (fun e he => hfull e (List.mem_cons_of_mem _ he))
        (by simpa using hfuel)

/-- When all blocks are full the walk ends at the last one, where it allocates a block, and goes on
in the list with the new block. -/
theorem allocPageFrom_grows {s₁ : State W PD BD ED} {res : EStateM.Result Stop _ ElementPtr}
    (ha : allocBlock k s = .ok () s₁) (hlast : ∀ c, s₁.heap.nx c = some b →
      ∀ fuel, 0 < fuel → allocPageFrom k fuel (some b) s₁ = res) :
    ∀ {l₁ : List BlockPtr} {pre pre₁ cur : Option BlockPtr} {fuel : ℕ}, l₁ ≠ [] →
      Seg s.heap.nx s.heap.pv pre cur l₁ none →
      Seg s₁.heap.nx s₁.heap.pv pre₁ cur (l₁ ++ [b]) none → (∀ c ∈ l₁, Full s c) →
      l₁.length < fuel → allocPageFrom k fuel cur s = res := by
  intro l₁
  -- The induction is on the blocks that are left, all of which are full.
  induction l₁ with
  | nil => exact fun hne => absurd rfl hne
  | cons c l₁ ih =>
    rintro pre pre₁ cur fuel - ⟨rfl, -, hseg⟩ ⟨-, -, hseg₁⟩ hfull hfuel
    obtain ⟨fuel, rfl⟩ : ∃ n, fuel = n + 1 := ⟨fuel - 1, by simp at hfuel; omega⟩
    obtain ⟨blkc, hc, hnlt⟩ := hfull c List.mem_cons_self
    rw [Heap.nx_of_block hc] at hseg
    rw [allocPageFrom, bind_of_ok (deref_of_block hc)]
    simp only [get_bind, if_neg hnlt]
    cases l₁ with
    | nil =>
      -- At the last one a block is allocated, and the walk goes on at the block that is linked to it now.
      rw [seg_nil] at hseg
      simp only [if_pos hseg]
      rw [bind_of_ok ha]
      obtain ⟨hnx, -⟩ := hseg₁
      obtain ⟨blkc₁, hc₁⟩ : ∃ x, s₁.heap.block c = some x := by
        cases hx : s₁.heap.block c with
        | none => simp [Heap.nx, hx] at hnx
        | some x => exact ⟨x, rfl⟩
      rw [bind_of_ok (deref_of_block hc₁)]
      rw [Heap.nx_of_block hc₁] at hnx
      rw [hnx]
      exact hlast c (by rw [Heap.nx_of_block hc₁, hnx]) fuel (by simpa using hfuel)
    | cons d l₁ =>
      -- At another one the walk goes on, and the link was there before the new block.
      have hnext : blkc.next ≠ none := by rw [hseg.1]; exact Option.some_ne_none d
      simp only [if_neg hnext]
      rw [bind_of_ok (deref_of_block hc)]
      have hcur : s₁.heap.nx c = blkc.next := by rw [hseg₁.1, hseg.1]
      rw [hcur] at hseg₁
      exact ih (List.cons_ne_nil d l₁) hseg hseg₁
        (fun e he => hfull e (List.mem_cons_of_mem _ he)) (by simpa using hfuel)

/-! ## `allocPage` -/

/-- The outcomes of `allocPage` on a pool whose blocks are linked and whose counts are right. -/
inductive AllocOutcome (k : Kind W PD BD ED) (s : State W PD BD ED) (pre : Option BlockPtr)
    (l : List BlockPtr) : EStateM.Result Stop (State W PD BD ED) (Option ElementPtr) → Prop
  /-- The pool is full. Nothing happens. -/
  | full (hmax : s.pool.size = s.pool.max) : AllocOutcome k s pre l (.ok none s)
  /-- The first unused element of the first block that has one is used. -/
  | found (hne : s.pool.size ≠ s.pool.max) (l₁ l₂ : List BlockPtr) (b : BlockPtr)
    (blk : Block BD ED) (i : ℕ) (hl : l = l₁ ++ b :: l₂) (hfull : ∀ c ∈ l₁, Full s c)
    (hblk : s.heap.block b = some blk) (hi : firstUnused blk s.pool.block_size = some i) :
    AllocOutcome k s pre l (.ok (some ⟨b, i⟩) (s.put b (blk.use i) (s.pool.size + 1)))
  /-- All blocks are full, and a new one cannot be had, which is what the exception says. The pool stays as
  it was. -/
  | throws (hne : s.pool.size ≠ s.pool.max) (hfull : ∀ c ∈ l, Full s c) (m : String)
    (s₁ : State W PD BD ED) (hset : k.setup s.pool s.world = .error (.thrown m) s₁.world)
    (hs : Untouched s s₁) : AllocOutcome k s pre l (.error (.thrown m) s₁)
  /-- All blocks are full. The first element of a new block is used. -/
  | grows (hne : s.pool.size ≠ s.pool.max) (hfull : ∀ c ∈ l, Full s c) (bd : BD)
    (ed : ℕ → ED → ED) (w : W) (s₁ : State W PD BD ED) (blk : Block BD ED)
    (hset : k.setup s.pool s.world = .ok (bd, ed) w) (hgrown : Grown s s₁ bd ed w)
    (hlinked : Linked s₁ pre (l ++ [s.heap.fresh])) (hblk : s₁.heap.block s.heap.fresh = some blk)
    (hi : firstUnused blk s₁.pool.block_size = some 0) :
    AllocOutcome k s pre l
      (.ok (some ⟨s.heap.fresh, 0⟩) (s₁.put s.heap.fresh (blk.use 0) (s₁.pool.size + 1)))

/-- There are at most as many blocks in the list as have been created. -/
theorem Linked.length_le (h : Linked s pre l) : l.length ≤ s.heap.fresh := by
  have hsub : l.toFinset ⊆ Finset.range s.heap.fresh := fun c hc =>
    Finset.mem_range.mpr (h.lt_fresh (List.mem_toFinset.mp hc))
  have hcard := Finset.card_le_card hsub
  rwa [List.toFinset_card_of_nodup h.nodup, Finset.card_range] at hcard

/-- The first element of a block without used elements is its first unused one. -/
theorem firstUnused_zero {n : ℕ} (hn : 0 < n) (h : (blk.start 0).used = false) :
    firstUnused blk n = some 0 := by
  rw [firstUnused, List.find?_range_eq_some]
  exact ⟨by simp [h], List.mem_range.mpr hn, fun j hj => absurd hj (Nat.not_lt_zero j)⟩

/-- What the walk does at a new block, which is the last one of the list. -/
theorem allocPageFrom_new {s₁ : State W PD BD ED} {bd : BD} {ed : ℕ → ED → ED} {w : W}
    (hbs : 0 < s.pool.block_size) (hgrown : Grown s s₁ bd ed w)
    (hlinked : Linked s₁ pre (l ++ [s.heap.fresh])) :
    ∃ blk, s₁.heap.block s.heap.fresh = some blk ∧
      firstUnused blk s₁.pool.block_size = some 0 ∧
      ∀ fuel, 0 < fuel → allocPageFrom k fuel (some s.heap.fresh) s₁ =
        .ok ⟨s.heap.fresh, 0⟩ (s₁.put s.heap.fresh (blk.use 0) (s₁.pool.size + 1)) := by
  obtain ⟨blk, hblk⟩ := hlinked.exist s.heap.fresh (by simp)
  have hbody := hgrown.new
  rw [Heap.body, hblk] at hbody
  simp only [Option.map_some, Option.some.injEq, Prod.mk.injEq] at hbody
  obtain ⟨hcount, -, hstart⟩ := hbody
  have hbs₁ : 0 < s₁.pool.block_size := by rw [hgrown.same.block_size]; exact hbs
  have hfirst : firstUnused blk s₁.pool.block_size = some 0 := by
    refine firstUnused_zero hbs₁ ?_
    rw [hstart, initElements, if_pos hbs]
  refine ⟨blk, hblk, hfirst, fun fuel hfuel => ?_⟩
  obtain ⟨mid, -, hseg⟩ := seg_append.mp hlinked.seg
  obtain ⟨hmid, -⟩ := id hseg
  rw [hmid] at hseg
  have hnone : ∀ c ∈ ([] : List BlockPtr), Full s₁ c := fun c hc => absurd hc List.not_mem_nil
  exact allocPageFrom_found hblk (by rw [hcount]; exact hbs₁) hfirst hseg hnone hfuel

/-- All blocks of the list are full, or there is a first one that is not. -/
theorem Linked.full_or_free (h : Linked s pre l) :
    (∀ c ∈ l, Full s c) ∨ ∃ l₁ b l₂ blk, l = l₁ ++ b :: l₂ ∧ (∀ c ∈ l₁, Full s c) ∧
      s.heap.block b = some blk ∧ blk.element_count < s.pool.block_size := by
  have hfull : ∀ c ∈ l, ¬ s.heap.count c < s.pool.block_size → Full s c := fun c hc hnot => by
    obtain ⟨blkc, hblkc⟩ := h.exist c hc
    rw [Heap.count_of_block hblkc] at hnot
    exact ⟨blkc, hblkc, hnot⟩
  cases hfind : l.find? fun c => decide (s.heap.count c < s.pool.block_size) with
  | none => exact .inl fun c hc => hfull c hc (by simpa using List.find?_eq_none.mp hfind c hc)
  | some b =>
    obtain ⟨hb, l₁, l₂, rfl, hl₁⟩ := List.find?_eq_some_iff_append.mp hfind
    obtain ⟨blk, hblk⟩ := h.exist b (by simp)
    rw [Heap.count_of_block hblk, decide_eq_true_eq] at hb
    have hbefore : ∀ c ∈ l₁, Full s c := fun c hc =>
      hfull c (by simp [hc]) (by simpa using hl₁ c hc)
    exact .inr ⟨l₁, b, l₂, blk, rfl, hbefore, hblk, hb⟩

/-- The bound that the walk is given is enough for the list. -/
theorem Linked.length_lt_fuel (h : Linked s pre l) : l.length < s.heap.fresh + 2 :=
  Nat.lt_of_le_of_lt h.length_le (Nat.lt_add_of_pos_right (by decide))

/-- `allocPage` when a block has an unused element. -/
theorem allocPage_found {l₁ l₂ : List BlockPtr} (h : Linked s pre (l₁ ++ b :: l₂))
    (hmax : s.pool.size ≠ s.pool.max) (hfull : ∀ c ∈ l₁, Full s c)
    (hblk : s.heap.block b = some blk) (hlt : blk.element_count < s.pool.block_size)
    (hi : firstUnused blk s.pool.block_size = some i) :
    allocPage k s = .ok (some ⟨b, i⟩) (s.put b (blk.use i) (s.pool.size + 1)) := by
  have hcount : s.pool.block_count ≠ 0 := by simp [h.block_count]
  have hfuel : l₁.length < s.heap.fresh + 2 := by
    have hlist := h.length_lt_fuel
    rw [List.length_append] at hlist
    omega
  have hwalk : allocPageFrom k (s.heap.fresh + 2) s.pool.start s = _ :=
    allocPageFrom_found hblk hlt hi h.seg hfull hfuel
  simp only [allocPage, get_bind, if_neg hmax, if_neg hcount]
  rw [bind_of_ok hwalk]
  rfl

/-- `allocPage` when all blocks are full and a new one cannot be had. It is asked for by `allocPage`
itself if the list is empty, and else by the walk. -/
theorem allocPage_throws (h : Linked s pre l) (hmax : s.pool.size ≠ s.pool.max)
    (hfull : ∀ c ∈ l, Full s c) {m : String} {s₁ : State W PD BD ED}
    (halloc : allocBlock k s = .error (.thrown m) s₁) :
    allocPage k s = .error (.thrown m) s₁ := by
  simp only [allocPage, get_bind, if_neg hmax]
  by_cases hcount : s.pool.block_count = 0
  · rw [if_pos hcount]
    exact bind_of_error halloc
  · rw [if_neg hcount]
    simp only [get_bind]
    have hne : l ≠ [] := fun hnil => hcount (by rw [h.block_count, hnil]; rfl)
    exact bind_of_error (allocPageFrom_throws halloc hne h.seg hfull h.length_lt_fuel)

/-- `allocPage` when all blocks are full and a new one has been had: the walk ends there. -/
theorem allocPage_grows (h : Linked s pre l) (hmax : s.pool.size ≠ s.pool.max)
    (hfull : ∀ c ∈ l, Full s c) {s₁ s₂ : State W PD BD ED} (halloc : allocBlock k s = .ok () s₁)
    (hlinked : Linked s₁ pre (l ++ [b])) {el : ElementPtr}
    (hwalk : ∀ fuel, 0 < fuel → allocPageFrom k fuel (some b) s₁ = .ok el s₂) :
    allocPage k s = .ok (some el) s₂ := by
  simp only [allocPage, get_bind, if_neg hmax]
  by_cases hcount : s.pool.block_count = 0
  · -- The list was empty, so the walk starts at the new block.
    have hnil : l = [] := List.eq_nil_of_length_eq_zero (h.block_count ▸ hcount)
    have hstart : s₁.pool.start = some b := by
      rw [hlinked.start_eq, hnil]
      rfl
    rw [if_pos hcount, bind_of_ok halloc]
    simp only [get_bind, hstart]
    rw [bind_of_ok (hwalk _ (Nat.succ_pos _))]
    rfl
  · -- The walk starts at the first block, as before, and asks for the new one when it is at the last.
    have hne : l ≠ [] := fun hnil => hcount (by rw [h.block_count, hnil]; rfl)
    have hstart : s₁.pool.start = s.pool.start := by
      rw [hlinked.start_eq, h.start_eq]
      cases l with
      | nil => exact absurd rfl hne
      | cons c l => rfl
    have hseg₁ := hlinked.seg
    rw [hstart] at hseg₁
    rw [if_neg hcount]
    simp only [get_bind]
    rw [bind_of_ok (allocPageFrom_grows halloc (fun _ _ => hwalk) hne h.seg hseg₁ hfull
      h.length_lt_fuel)]
    rfl

/-- `allocPage` on a pool whose blocks are linked and whose counts are right. -/
theorem allocPage_cases (h : Linked s pre l) (hbs : 0 < s.pool.block_size)
    (hcounts : ∀ b ∈ l, ∀ blk, s.heap.block b = some blk →
      blk.element_count = usedCount s.pool.block_size blk.start) :
    AllocOutcome k s pre l (allocPage k s) := by
  by_cases hmax : s.pool.size = s.pool.max
  · have hres : allocPage k s = .ok none s := by simp [allocPage, hmax]
    rw [hres]
    exact .full hmax
  rcases h.full_or_free with hfull | ⟨l₁, b, l₂, blk, rfl, hfull, hblk, hlt⟩
  · cases hset : k.setup s.pool s.world with
    | error e w =>
      obtain ⟨m, s₁, rfl, rfl, halloc, hs⟩ := allocBlock_throws h hset
      rw [allocPage_throws h hmax hfull halloc]
      exact .throws hmax hfull m s₁ hset hs
    | ok a w =>
      obtain ⟨bd, ed⟩ := a
      obtain ⟨s₁, halloc, hgrown, hlinked⟩ := allocBlock_ok h hset
      obtain ⟨blk, hblk, hfirst, hwalk⟩ := allocPageFrom_new (k := k) hbs hgrown hlinked
      rw [allocPage_grows h hmax hfull halloc hlinked hwalk]
      exact .grows hmax hfull bd ed w s₁ blk hset hgrown hlinked hblk hfirst
  · -- The count tells that the block has an unused element.
    obtain ⟨i, hi⟩ := firstUnused_of_lt (by rw [← hcounts b (by simp) blk hblk]; exact hlt)
    rw [allocPage_found h hmax hfull hblk hlt hi]
    exact .found hmax l₁ l₂ b blk i rfl hfull hblk hi

end L4Rdma.PA
