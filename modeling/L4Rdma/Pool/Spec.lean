import L4Rdma.Pool.Free

/-!
# What the operations do to the elements

The outcomes of `allocPage` and `freePage`, seen from the elements and not from the blocks: an
allocation adds one element to the used ones (`Taken`), freeing takes one away (`Given`), and the
data of the other elements stays.
-/

namespace L4Rdma.PA

open Lib

variable {W PD BD ED : Type} {k : Kind W PD BD ED} {s s' : State W PD BD ED}
  {pre pre' : Option BlockPtr} {l l' l₁ l₂ : List BlockPtr} {b : BlockPtr} {blk : Block BD ED}
  {e e' : ElementPtr}

/-! ## Elements -/

/-- The element at a place. -/
def Heap.elem (h : Heap BD ED) (e : ElementPtr) : Option (Element ED) :=
  (h.block e.block).map fun blk => blk.start e.index

/-- The data of the element at a place. -/
def Heap.dataAt (h : Heap BD ED) (e : ElementPtr) : Option ED := (h.elem e).map Element.data

/-- The data of a block. -/
def Heap.blockData (h : Heap BD ED) (b : BlockPtr) : Option BD := (h.block b).map Block.data

/-- The data of a block that exists. -/
theorem Heap.blockData_of_block {h : Heap BD ED} (hb : h.block b = some blk) :
    h.blockData b = some blk.data := by
  simp [Heap.blockData, hb]

/-- A block with the same body has the same data. -/
theorem Heap.blockData_of_body {h h' : Heap BD ED} (hb : h'.body b = h.body b) :
    h'.blockData b = h.blockData b := by
  unfold Heap.body at hb
  unfold Heap.blockData
  cases hx : h.block b <;> cases hy : h'.block b <;> simp_all

/-- Writing a block without its data leaves the data of all blocks. -/
theorem blockData_put {size : ℕ} (hblk : s.heap.block b = some blk) (blk' : Block BD ED)
    (hdata : blk'.data = blk.data) (c : BlockPtr) :
    (s.put b blk' size).heap.blockData c = s.heap.blockData c := by
  by_cases hc : c = b
  · have hset : (s.put b blk' size).heap.block b = some blk' := Heap.set_block_same
    rw [hc, Heap.blockData_of_block hset, Heap.blockData_of_block hblk, hdata]
  · exact Heap.blockData_of_body (Heap.body_set_of_ne hc)

/-- An element of a block that exists. -/
theorem Heap.elem_of_block {h : Heap BD ED} (hb : h.block e.block = some blk) :
    h.elem e = some (blk.start e.index) := by
  simp [Heap.elem, hb]

/-- A block with the same body has the same elements. -/
theorem Heap.elem_of_body {h h' : Heap BD ED} (hb : h'.body e.block = h.body e.block) :
    h'.elem e = h.elem e := by
  unfold Heap.body at hb
  unfold Heap.elem
  cases hx : h.block e.block <;> cases hy : h'.block e.block <;> simp_all

/-- An element is used if it is one of a block of the list and marked as used. -/
theorem usedAt_iff : UsedAt s l e ↔
    e.block ∈ l ∧ e.index < s.pool.block_size ∧ ∃ el, s.heap.elem e = some el ∧ el.used = true := by
  unfold UsedAt Heap.elem
  cases s.heap.block e.block <;> simp

/-- In a well-formed pool an element is used in at most one block. -/
theorem UsedAt.congr {s₁ : State W PD BD ED} (hmem : e.block ∈ l ↔ e.block ∈ l')
    (hsize : s₁.pool.block_size = s.pool.block_size) (helem : s₁.heap.elem e = s.heap.elem e) :
    UsedAt s₁ l' e ↔ UsedAt s l e := by
  rw [usedAt_iff, usedAt_iff, hmem, hsize, helem]

/-- A block of a well-formed pool has a used element exactly when its count is positive. -/
theorem Rep.count_pos_iff (h : Rep s pre l) (hb : b ∈ l) (hblk : s.heap.block b = some blk) :
    0 < blk.element_count ↔ ∃ i, UsedAt s l ⟨b, i⟩ := by
  rw [(h.blockOk hb hblk).count_eq, usedCount, Finset.card_pos]
  constructor
  · rintro ⟨i, hi⟩
    rw [Finset.mem_filter, Finset.mem_range] at hi
    exact ⟨i, hb, hi.1, blk, hblk, hi.2⟩
  · rintro ⟨i, -, hi, blk', hblk', hu⟩
    obtain rfl : blk = blk' := Option.some.inj (hblk.symm.trans hblk')
    exact ⟨i, by simpa using ⟨hi, hu⟩⟩

/-! ## Taking an element -/

/-- `e` is taken in the step from `s` to `s'`, in which the list of blocks goes from `l` to `l'`. -/
structure Taken (k : Kind W PD BD ED) (s s' : State W PD BD ED) (pre : Option BlockPtr)
    (l l' : List BlockPtr) (e : ElementPtr) : Prop where
  rep : Rep s' pre l'
  unused : ¬ UsedAt s l e
  used : ∀ e', UsedAt s' l' e' ↔ UsedAt s l e' ∨ e' = e
  data : ∀ e', e'.block ∈ l → s'.heap.dataAt e' = s.heap.dataAt e'
  size : s'.pool.size = s.pool.size + 1
  max : s'.pool.max = s.pool.max
  block_size : s'.pool.block_size = s.pool.block_size
  pool_data : s'.pool.data = s.pool.data
  /-- The blocks are the old ones, or, when all of them are full, one more with the content that
  `setup` made for it. -/
  blocks : (l' = l ∧ s'.world = s.world) ∨
    l' = l ++ [s.heap.fresh] ∧ e.block = s.heap.fresh ∧ (∀ c ∈ l, Full s c) ∧
      ∃ bd ed, k.setup s.pool s.world = .ok (bd, ed) s'.world ∧ ∀ i, i < s.pool.block_size →
        ∃ d, s'.heap.dataAt ⟨s.heap.fresh, i⟩ = some (ed i d)

/-- The data of a block stays when an element of it is used. -/
theorem dataAt_put_use {i : ℕ} {size : ℕ} (hblk : s.heap.block b = some blk) (e' : ElementPtr) :
    (s.put b (blk.use i) size).heap.dataAt e' = s.heap.dataAt e' := by
  unfold Heap.dataAt Heap.elem
  by_cases hb : e'.block = b
  · rw [hb, hblk]
    by_cases hi : e'.index = i
    · subst hi
      simp [State.put, Block.use, Block.setElement]
    · simp [State.put, Block.use, Block.setElement, Function.update_of_ne hi]
  · rw [show (s.put b (blk.use i) size).heap.block e'.block = s.heap.block e'.block from
      Heap.set_block_of_ne hb]

/-- Using an element makes it a used one, and changes no other. -/
theorem usedAt_put_use {i : ℕ} {size : ℕ} (hb : b ∈ l) (hblk : s.heap.block b = some blk)
    (hi : i < s.pool.block_size) (e' : ElementPtr) :
    UsedAt (s.put b (blk.use i) size) l e' ↔ UsedAt s l e' ∨ e' = ⟨b, i⟩ := by
  rw [usedAt_iff, usedAt_iff]
  obtain ⟨c, j⟩ := e'
  by_cases hc : c = b
  · subst hc
    have hset : (s.put c (blk.use i) size).heap.block c = some (blk.use i) := Heap.set_block_same
    rw [Heap.elem_of_block hset, Heap.elem_of_block hblk]
    by_cases hj : j = i
    · subst hj
      simp [State.put, Block.use, Block.setElement, hb, hi]
    · simp [State.put, Block.use, Block.setElement, hj]
  · have hset : (s.put b (blk.use i) size).heap.block c = s.heap.block c :=
      Heap.set_block_of_ne hc
    have helem : (s.put b (blk.use i) size).heap.elem ⟨c, j⟩ = s.heap.elem ⟨c, j⟩ := by
      rw [Heap.elem, hset, Heap.elem]
    rw [helem]
    simp [hc, State.put]

/-- The first unused element of a block of the list is taken. -/
theorem taken_put {i : ℕ} (h : Rep s pre l) (hlt : s.pool.size < s.pool.max) (hb : b ∈ l)
    (hblk : s.heap.block b = some blk) (hi : firstUnused blk s.pool.block_size = some i) :
    Taken k s (s.put b (blk.use i) (s.pool.size + 1)) pre l l ⟨b, i⟩ := by
  obtain ⟨hlt', hunused, -⟩ := firstUnused_spec hi
  refine ⟨h.use hb hblk hlt' hunused hlt, ?_, usedAt_put_use hb hblk hlt',
    fun e' _ => dataAt_put_use hblk e', rfl, rfl, rfl, rfl, .inl ⟨rfl, rfl⟩⟩
  rintro ⟨-, -, blk', hblk', hu⟩
  obtain rfl : blk = blk' := Option.some.inj (hblk.symm.trans hblk')
  rw [hunused] at hu
  cases hu

/-- Adding a block adds no used element. -/
theorem Grown.usedAt {bd : BD} {ed : ℕ → ED → ED} {w : W} (hlt : ∀ c ∈ l, c < s.heap.fresh)
    (hg : Grown s s' bd ed w) (e' : ElementPtr) :
    UsedAt s' (l ++ [s.heap.fresh]) e' ↔ UsedAt s l e' := by
  by_cases hb : e'.block = s.heap.fresh
  · -- No element of the new block is used, and the old state does not have the block.
    have hnew := hg.new
    have hnot : ¬ UsedAt s l e' := fun hu => Nat.lt_irrefl _ (hb ▸ hlt _ hu.1)
    refine ⟨?_, fun hu => absurd hu hnot⟩
    rintro ⟨-, hi, blk, hblk, hu⟩
    rw [hb] at hblk
    rw [Heap.body, hblk] at hnew
    simp only [Option.map_some, Option.some.injEq, Prod.mk.injEq] at hnew
    rw [hg.same.block_size] at hi
    rw [hnew.2.2, initElements, if_pos hi] at hu
    cases hu
  · exact UsedAt.congr (by simp [hb]) hg.same.block_size (Heap.elem_of_body (hg.body _ hb))

/-- The first element of a new block is taken. -/
theorem taken_grown {bd : BD} {ed : ℕ → ED → ED} {w : W} {s₁ : State W PD BD ED} {i : ℕ}
    (h : Rep s pre l) (hlt : s.pool.size < s.pool.max) (hfull : ∀ c ∈ l, Full s c)
    (hset : k.setup s.pool s.world = .ok (bd, ed) w) (hg : Grown s s₁ bd ed w)
    (hrep : Rep s₁ pre (l ++ [s.heap.fresh])) (hblk : s₁.heap.block s.heap.fresh = some blk)
    (hi : firstUnused blk s₁.pool.block_size = some i) :
    Taken k s (s₁.put s.heap.fresh (blk.use i) (s₁.pool.size + 1)) pre l (l ++ [s.heap.fresh])
      ⟨s.heap.fresh, i⟩ := by
  have hlt₁ : s₁.pool.size < s₁.pool.max := by rw [hg.same.size, hg.same.max]; exact hlt
  have hold := hg.usedAt (l := l) fun c hc => h.lt_fresh hc
  obtain ⟨hrep', hunused, hused, hdata, hsize, hmax, hbs, hpd, -⟩ :=
    taken_put (k := k) hrep hlt₁ (by simp) hblk hi
  refine ⟨hrep', fun hu => hunused ((hold _).mpr hu), fun e' => (hused e').trans ?_,
    fun e' he' => (hdata e' (by simp [he'])).trans ?_, hsize.trans (by rw [hg.same.size]),
    hmax.trans hg.same.max, hbs.trans hg.same.block_size, hpd.trans hg.same.data,
    .inr ⟨rfl, rfl, hfull, bd, ed, by rw [hset, ← hg.world]; rfl, fun j hj => ?_⟩⟩
  · rw [hold]
  · have hne : e'.block ≠ s.heap.fresh := Nat.ne_of_lt (h.lt_fresh he')
    rw [Heap.dataAt, Heap.elem_of_body (hg.body _ hne), Heap.dataAt]
  · have hnew := hg.new
    rw [Heap.body, hblk] at hnew
    simp only [Option.map_some, Option.some.injEq, Prod.mk.injEq] at hnew
    refine ⟨((s.heap.uninit s.heap.fresh).start j).data, ?_⟩
    rw [dataAt_put_use hblk, Heap.dataAt, Heap.elem_of_block hblk, hnew.2.2]
    simp [initElements, hj]

/-- `allocPage` on a well-formed pool finds it full, or takes an element, or throws, when it needs a
new block and cannot have it. -/
theorem allocPage_spec (k : Kind W PD BD ED) (h : Rep s pre l) (hbs : 0 < s.pool.block_size) :
    (s.pool.size = s.pool.max ∧ allocPage k s = .ok none s) ∨
    (s.pool.size < s.pool.max ∧ ∃ e s' l', allocPage k s = .ok (some e) s' ∧
      Taken k s s' pre l l' e) ∨
    (s.pool.size < s.pool.max ∧ ∃ m s', allocPage k s = .error (.thrown m) s' ∧
      Rep s' pre l ∧ s'.pool = s.pool ∧ (∀ c, c < s.heap.fresh → s'.heap.block c = s.heap.block c) ∧
      (∀ c ∈ l, Full s c) ∧ k.setup s.pool s.world = .error (.thrown m) s'.world) := by
  have hlt : s.pool.size ≠ s.pool.max → s.pool.size < s.pool.max := lt_of_le_of_ne h.size_le
  have hout := allocPage_cases (k := k) h.toLinked hbs fun b hb blk hblk =>
    (h.blockOk hb hblk).count_eq
  cases hres : allocPage k s with
  | ok oe s' =>
    rw [hres] at hout
    cases hout with
    | full hmax => exact .inl ⟨hmax, rfl⟩
    | found hne l₁ l₂ b blk i hl hfull hblk hi =>
      subst hl
      exact .inr (.inl ⟨hlt hne, _, _, _, rfl, taken_put h (hlt hne) (by simp) hblk hi⟩)
    | grows hne hfull bd ed w s₁ blk hset hgrown hlinked hblk hi =>
      exact .inr (.inl ⟨hlt hne, _, _, _, rfl, taken_grown h (hlt hne) hfull hset hgrown
        (hgrown.rep h hlinked) hblk hi⟩)
  | error err s' =>
    rw [hres] at hout
    cases hout with
    | throws hne hfull m s₁ hset hs =>
      exact .inr (.inr ⟨hlt hne, m, _, rfl, h.congr hs, hs.pool, hs.block, hfull, hset⟩)

/-- `allocPage` on a well-formed pool whose blocks can always be had. -/
theorem allocPage_total (k : Kind W PD BD ED) (h : Rep s pre l) (hbs : 0 < s.pool.block_size)
    (hset : ∀ p w err w', k.setup p w ≠ .error err w') :
    (s.pool.size = s.pool.max ∧ allocPage k s = .ok none s) ∨
    (s.pool.size < s.pool.max ∧ ∃ e s' l' d, allocPage k s = .ok (some e) s' ∧
      Taken k s s' pre l l' e ∧ s'.heap.dataAt e = some d) := by
  rcases allocPage_spec k h hbs with hfull | ⟨hlt, e, s', l', hres, ht⟩ |
    ⟨-, _, _, -, -, -, -, -, herr⟩
  · exact .inl hfull
  · obtain ⟨-, -, el, hel, -⟩ := usedAt_iff.mp ((ht.used e).mpr (.inr rfl))
    have hd : s'.heap.dataAt e = some el.data := by rw [Heap.dataAt, hel]; rfl
    exact .inr ⟨hlt, e, s', l', el.data, hres, ht, hd⟩
  · exact absurd herr (hset _ _ _ _)

/-- Taking an element leaves the data of the blocks, and a new block has the data that `setup` made
for it. -/
theorem allocPage_blockData (h : Rep s pre l) (hbs : 0 < s.pool.block_size)
    (hres : allocPage k s = .ok (some e) s') :
    (∀ b ∈ l, s'.heap.blockData b = s.heap.blockData b) ∧
      ∀ bd ed w, k.setup s.pool s.world = .ok (bd, ed) w → (∀ b ∈ l, Full s b) →
        s'.heap.blockData s.heap.fresh = some bd := by
  have hout := allocPage_cases (k := k) h.toLinked hbs fun b hb blk hblk =>
    (h.blockOk hb hblk).count_eq
  rw [hres] at hout
  cases hout with
  | found hne l₁ l₂ b blk i hl hfull hblk hi =>
    refine ⟨fun c _ => blockData_put hblk (blk.use i) rfl c, fun _ _ _ _ hall => ?_⟩
    -- The block from which the element was taken was not full.
    have hmem : b ∈ l := hl ▸ List.mem_append_right _ List.mem_cons_self
    obtain ⟨hlt, hunused, -⟩ := firstUnused_spec hi
    obtain ⟨blk', hblk', hge⟩ := hall b hmem
    obtain rfl : blk = blk' := Option.some.inj (hblk.symm.trans hblk')
    have hcount := (h.blockOk hmem hblk).count_eq
    have hle := usedCount_le s.pool.block_size blk.start
    rw [usedCount_eq_iff.mp (by omega) i hlt] at hunused
    cases hunused
  | grows hne hfull bd ed w s₁ blk hset hgrown hlinked hblk hi =>
    refine ⟨fun c hc => ?_, fun bd' ed' w' hset' _ => ?_⟩
    · rw [blockData_put hblk (blk.use 0) rfl]
      exact Heap.blockData_of_body (hgrown.body c (Nat.ne_of_lt (h.lt_fresh hc)))
    · rw [hset] at hset'
      cases hset'
      rw [blockData_put hblk (blk.use 0) rfl, Heap.blockData]
      obtain ⟨blk', hblk', hbody⟩ := Option.map_eq_some_iff.mp hgrown.new
      rw [hblk']
      exact congrArg some (congrArg (fun body => body.2.1) hbody)

/-! ## Giving an element back -/

/-- `e` is given back in the step from `s` to `s'`. -/
structure Given (s s' : State W PD BD ED) (l l' : List BlockPtr) (e : ElementPtr) : Prop where
  used : ∀ e', UsedAt s' l' e' ↔ UsedAt s l e' ∧ e' ≠ e
  data : ∀ e', e'.block ∈ l' → s'.heap.dataAt e' = s.heap.dataAt e'
  size : s'.pool.size + 1 = s.pool.size
  max : s'.pool.max = s.pool.max
  block_size : s'.pool.block_size = s.pool.block_size
  pool_data : s'.pool.data = s.pool.data
  sub : l' ⊆ l
  /-- Blocks without used elements are gone. -/
  kept : ∀ b ∈ l', b ≠ e.block ∨ ∃ i, UsedAt s' l' ⟨b, i⟩

/-- The data of a block stays when an element of it is given up. -/
theorem dataAt_give (hblk : s.heap.block e.block = some blk) (e' : ElementPtr) :
    (s.give e blk).heap.dataAt e' = s.heap.dataAt e' := by
  unfold Heap.dataAt Heap.elem
  by_cases hb : e'.block = e.block
  · rw [hb, hblk]
    by_cases hi : e'.index = e.index
    · simp [State.give, State.put, Block.give, Block.setElement, hi]
    · simp [State.give, State.put, Block.give, Block.setElement, Function.update_of_ne hi]
  · rw [show (s.give e blk).heap.block e'.block = s.heap.block e'.block from
      Heap.set_block_of_ne hb]

/-- Giving an element up makes it an unused one, and changes no other. -/
theorem usedAt_give (hblk : s.heap.block e.block = some blk) (e' : ElementPtr) :
    UsedAt (s.give e blk) l e' ↔ UsedAt s l e' ∧ e' ≠ e := by
  rw [usedAt_iff, usedAt_iff]
  obtain ⟨b, i⟩ := e
  obtain ⟨c, j⟩ := e'
  by_cases hc : c = b
  · subst hc
    have hset : (s.give ⟨c, i⟩ blk).heap.block c = some (blk.give i) := Heap.set_block_same
    have helem : s.heap.elem ⟨c, j⟩ = some (blk.start j) := Heap.elem_of_block hblk
    rw [Heap.elem_of_block hset, helem]
    by_cases hj : j = i
    · subst hj
      simp [Block.give, Block.setElement]
    · simp [State.give, State.put, Block.give, Block.setElement, hj]
  · have hset : (s.give ⟨b, i⟩ blk).heap.block c = s.heap.block c := Heap.set_block_of_ne hc
    have helem : (s.give ⟨b, i⟩ blk).heap.elem ⟨c, j⟩ = s.heap.elem ⟨c, j⟩ := by
      rw [Heap.elem, hset, Heap.elem]
    rw [helem]
    simp [hc, State.give, State.put]

/-- An element is given back whose block stays in use. -/
theorem given_keep (h : Rep s pre l) (he : UsedAt s l e) (hblk : s.heap.block e.block = some blk)
    (hcount : blk.element_count ≠ 1) : Given s (s.give e blk) l l e ∧ Rep (s.give e blk) pre l := by
  obtain ⟨hmem, hi, blk', hblk', hu⟩ := he
  obtain rfl : blk = blk' := Option.some.inj (hblk.symm.trans hblk')
  have hpos := (h.blockOk hmem hblk).count_pos hi hu
  have hsize := h.count_le_size hmem
  rw [Heap.count_of_block hblk] at hsize
  have hrep : Rep (s.give e blk) pre l := h.give hmem hblk hi hu
  refine ⟨⟨usedAt_give hblk, fun e' _ => dataAt_give hblk e', ?_, rfl, rfl, rfl,
    fun _ hb => hb, fun b hb => ?_⟩, hrep⟩
  · show s.pool.size - 1 + 1 = s.pool.size
    omega
  · by_cases hbe : b = e.block
    · subst hbe
      have hblkg : (s.give e blk).heap.block e.block = some (blk.give e.index) :=
        Heap.set_block_same
      refine .inr ((hrep.count_pos_iff hmem hblkg).mp ?_)
      show 0 < blk.element_count - 1
      omega
    · exact .inl hbe

/-- An element is given back that was the last used one of its block, which is taken off the
list. -/
theorem given_drop (h : Rep s pre (l₁ ++ e.block :: l₂)) (he : UsedAt s (l₁ ++ e.block :: l₂) e)
    (hblk : s.heap.block e.block = some blk) (hcount : blk.element_count = 1)
    (hd : Dropped (s.give e blk) s' pre e.block l₁ l₂) :
    Given s s' (l₁ ++ e.block :: l₂) (l₁ ++ l₂) e := by
  obtain ⟨hmem, hi, blk', hblk', hu⟩ := he
  obtain rfl : blk = blk' := Option.some.inj (hblk.symm.trans hblk')
  have hrep : Rep (s.give e blk) pre (l₁ ++ e.block :: l₂) := h.give hmem hblk hi hu
  have hsize := h.count_le_size hmem
  rw [Heap.count_of_block hblk] at hsize
  have hblkg : (s.give e blk).heap.block e.block = some (blk.give e.index) := Heap.set_block_same
  -- The block has no used element any more.
  have hnone : ∀ i, ¬ UsedAt (s.give e blk) (l₁ ++ e.block :: l₂) ⟨e.block, i⟩ := fun i hui => by
    have hpos := (hrep.count_pos_iff hmem hblkg).mpr ⟨i, hui⟩
    have hzero : (blk.give e.index).element_count = blk.element_count - 1 := rfl
    omega
  have hsub : l₁ ++ l₂ ⊆ l₁ ++ e.block :: l₂ := fun c hc => by
    rw [List.mem_append] at hc
    rw [List.mem_append, List.mem_cons]
    tauto
  refine ⟨fun e' => ?_, fun e' he' => ?_, ?_, ?_, ?_, ?_, hsub, ?_⟩
  · rw [← usedAt_give hblk]
    by_cases hb : e'.block = e.block
    · obtain ⟨c, i⟩ := e'
      subst hb
      exact ⟨fun hu => absurd rfl (h.toLinked.ne_of_mem hu.1), fun hu => absurd hu (hnone i)⟩
    · refine UsedAt.congr ?_ hd.same.block_size (Heap.elem_of_body (hd.body _ hb))
      simp [hb]
  · have hb : e'.block ≠ e.block := h.toLinked.ne_of_mem he'
    rw [Heap.dataAt, Heap.elem_of_body (hd.body _ hb), ← Heap.dataAt, dataAt_give hblk]
  · rw [hd.same.size]
    show s.pool.size - 1 + 1 = s.pool.size
    omega
  · exact hd.same.max
  · exact hd.same.block_size
  · exact hd.same.data
  · exact fun b hb => .inl (h.toLinked.ne_of_mem hb)

/-- In a pool whose first block points back to nothing, giving a used element back ends well when
the content of blocks can be released. -/
theorem freePage_total (k : Kind W PD BD ED) (h : Rep s none l) (he : UsedAt s l e)
    (hrel : ∀ p bd w err w', k.release p bd w ≠ .error err w') :
    ∃ s' pre' l', freePage k e s = .ok () s' ∧ Rep s' pre' l' ∧ Given s s' l l' e := by
  obtain ⟨blk, hblk⟩ := h.exist e.block he.1
  have hout := freePage_cases (k := k) h he hblk
  generalize hres : freePage k e s = res at hout
  cases hout with
  | keep hcount =>
    obtain ⟨hg, hrep⟩ := given_keep h he hblk hcount
    exact ⟨_, none, l, rfl, hrep, hg⟩
  | stale hcount q l₂ s₁ hpre hl => cases hpre
  | drop hcount l₁ l₂ s₁ p hl hpre hp hrelease hgone hdrop hrep =>
    subst hl
    exact ⟨s₁, _, l₁ ++ l₂, rfl, hrep, given_drop h he hblk hcount hdrop⟩
  | throws hcount l₁ l₂ s₁ m p w hl hpre hp hrelease hdrop hrep =>
    exact absurd hrelease (hrel p blk.data s.world _ w)

/-! ## Writing the data of an element -/

/-- A block with other data for an element. -/
def Block.setData (blk : Block BD ED) (i : ℕ) (d : ED) : Block BD ED :=
  blk.setElement i fun el => { el with data := d }

/-- The state with other data for an element. -/
def State.setData (s : State W PD BD ED) (e : ElementPtr) (d : ED) : State W PD BD ED :=
  match s.heap.block e.block with
  | none => s
  | some blk => { s with heap := s.heap.set e.block (some (blk.setData e.index d)) }

variable {d d' : ED} {el : Element ED}

/-- Writing the data of an element writes its block. -/
theorem State.setData_of_block (hblk : s.heap.block e.block = some blk) (d : ED) :
    s.setData e d = s.put e.block (blk.setData e.index d) s.pool.size := by
  unfold State.setData
  rw [hblk]
  rfl

/-- It leaves the pool's own fields. -/
@[simp] theorem State.setData_pool : (s.setData e d).pool = s.pool := by
  unfold State.setData
  cases s.heap.block e.block <;> rfl

/-- It leaves what is around the pool. -/
@[simp] theorem State.setData_world : (s.setData e d).world = s.world := by
  unfold State.setData
  cases s.heap.block e.block <;> rfl

/-- The block in which there is an element. -/
theorem Heap.exists_block_of_elem {h : Heap BD ED} (he : h.elem e = some el) :
    ∃ blk, h.block e.block = some blk ∧ blk.start e.index = el :=
  Option.map_eq_some_iff.mp he

/-- The element that has data. -/
theorem Heap.exists_elem_of_dataAt {h : Heap BD ED} (hd : h.dataAt e = some d) :
    ∃ el, h.elem e = some el ∧ el.data = d :=
  Option.map_eq_some_iff.mp hd

/-- What an element is after data has been written. -/
theorem State.elem_setData (e' : ElementPtr) :
    (s.setData e d).heap.elem e' =
      if e' = e then (s.heap.elem e').map fun el => { el with data := d } else s.heap.elem e' := by
  obtain ⟨c, j⟩ := e'
  -- Writing to a block that is not there changes nothing.
  cases hblk : s.heap.block e.block with
  | none =>
    unfold State.setData
    rw [hblk]
    split_ifs with hc
    · rw [hc, Heap.elem, hblk]
      rfl
    · rfl
  | some blk =>
    rw [State.setData_of_block hblk]
    -- Only the element itself is written to, among those of its block and of all others.
    by_cases hc : c = e.block
    · subst hc
      have hset : (s.put e.block (blk.setData e.index d) s.pool.size).heap.block e.block =
          some (blk.setData e.index d) := Heap.set_block_same
      have hblkj : s.heap.elem ⟨e.block, j⟩ = some (blk.start j) := Heap.elem_of_block hblk
      have hsetj : (s.put e.block (blk.setData e.index d) s.pool.size).heap.elem ⟨e.block, j⟩ =
          some ((blk.setData e.index d).start j) := Heap.elem_of_block hset
      rw [hsetj, hblkj]
      by_cases hj : j = e.index
      · simp [hj, Block.setData, Block.setElement]
      · have hne : (⟨e.block, j⟩ : ElementPtr) ≠ e := fun heq => hj (congrArg ElementPtr.index heq)
        simp [hne, hj, Block.setData, Block.setElement]
    · have hset : (s.put e.block (blk.setData e.index d) s.pool.size).heap.block c =
          s.heap.block c := Heap.set_block_of_ne hc
      have hne : (⟨c, j⟩ : ElementPtr) ≠ e := fun heq => hc (congrArg ElementPtr.block heq)
      rw [if_neg hne, Heap.elem, hset, Heap.elem]

/-- The data that has been written. -/
theorem State.dataAt_setData_self (hd : s.heap.dataAt e = some d') :
    (s.setData e d).heap.dataAt e = some d := by
  obtain ⟨el, hel, -⟩ := Heap.exists_elem_of_dataAt hd
  rw [Heap.dataAt, State.elem_setData, if_pos rfl, hel]
  rfl

/-- The data of the other elements stays. -/
theorem State.dataAt_setData_of_ne (hne : e' ≠ e) :
    (s.setData e d).heap.dataAt e' = s.heap.dataAt e' := by
  rw [Heap.dataAt, State.elem_setData, if_neg hne, Heap.dataAt]

/-- Of two writes to the same element the last one counts. -/
theorem State.setData_setData : (s.setData e d').setData e d = s.setData e d := by
  cases hblk : s.heap.block e.block with
  | none =>
    have hsame : s.setData e d' = s := by
      unfold State.setData
      rw [hblk]
    rw [hsame]
  | some blk =>
    have hset : (s.setData e d').heap.block e.block = some (blk.setData e.index d') := by
      rw [State.setData_of_block hblk]
      exact Heap.set_block_same
    rw [State.setData_of_block hset, State.setData_of_block hblk, State.setData_of_block hblk]
    simp [State.put, Heap.set, Block.setData, Block.setElement]

/-- Writing the data that an element has changes nothing. -/
theorem State.setData_self (hd : s.heap.dataAt e = some d) : s.setData e d = s := by
  obtain ⟨el, hel, rfl⟩ := Heap.exists_elem_of_dataAt hd
  obtain ⟨blk, hblk, rfl⟩ := Heap.exists_block_of_elem hel
  have hsame : blk.setData e.index (blk.start e.index).data = blk := by
    unfold Block.setData Block.setElement
    rw [Function.update_eq_self]
  have hset : s.heap.set e.block (some blk) = s.heap := by
    unfold Heap.set
    rw [← hblk, Function.update_eq_self]
  rw [State.setData_of_block hblk, hsame, State.put, hset]

/-- The same elements are used when data has been written. -/
theorem State.usedAt_setData : UsedAt (s.setData e d) l e' ↔ UsedAt s l e' := by
  rw [usedAt_iff, usedAt_iff, State.setData_pool, State.elem_setData]
  split_ifs with he
  · cases s.heap.elem e' <;> simp
  · rfl

/-- Writing a block that is not in the list keeps a pool well formed. -/
theorem Rep.set_of_notMem (h : Rep s pre l) (hb : b ∉ l) (hblk : s.heap.block b = some blk)
    (blk' : Block BD ED) : Rep { s with heap := s.heap.set b (some blk') } pre l := by
  have hne : ∀ c ∈ l, c ≠ b := fun c hc heq => hb (heq ▸ hc)
  refine ⟨⟨h.seg.congr fun c hc => Heap.links_set_of_ne (hne c hc), h.last, h.block_count,
    fun c hc => ?_, fun c hc => ?_, h.pre_nil⟩, fun c hc n d a hbody => ?_, ?_, h.size_le,
    fun q hq => ?_⟩
  · rw [Heap.set_block_of_ne (hne c hc)]
    exact h.exist c hc
  · have hunborn := h.unborn c hc
    have hcb : c ≠ b := fun heq => by
      rw [heq, hblk] at hunborn
      cases hunborn
    rwa [Heap.set_block_of_ne hcb]
  · rw [Heap.body_set_of_ne (hne c hc)] at hbody
    exact h.ok c hc n d a hbody
  · have hcounts : l.map (s.heap.set b (some blk')).count = l.map s.heap.count :=
      List.map_congr_left fun c hc => Heap.count_set_of_ne (hne c hc)
    rw [hcounts]
    exact h.size_eq
  · obtain ⟨hlt, hgone⟩ := h.stale q hq
    have hqb : q ≠ b := fun heq => by
      rw [heq, hblk] at hgone
      cases hgone
    exact ⟨hlt, by rwa [Heap.set_block_of_ne hqb]⟩

/-- Writing data keeps a pool well formed. -/
theorem Rep.setData (h : Rep s pre l) (e : ElementPtr) (d : ED) : Rep (s.setData e d) pre l := by
  cases hblk : s.heap.block e.block with
  | none =>
    unfold State.setData
    rwa [hblk]
  | some blk =>
    rw [State.setData_of_block hblk]
    by_cases he : e.block ∈ l
    · have hok := h.blockOk he hblk
      refine h.put he hblk rfl rfl ⟨?_, fun i hi => ?_⟩ rfl h.size_le
      · show blk.element_count = _
        rw [hok.count_eq, usedCount, usedCount]
        congr 1
        refine Finset.filter_congr fun i _ => ?_
        by_cases hi : i = e.index
        · simp [hi, Block.setData, Block.setElement]
        · simp [hi, Block.setData, Block.setElement]
      · show (Function.update blk.start e.index _ i).block = e.block
        by_cases hie : i = e.index
        · subst hie
          rw [Function.update_self]
          exact hok.owner _ hi
        · rw [Function.update_of_ne hie]
          exact hok.owner i hi
    · exact h.set_of_notMem he hblk _

/-- Reading an element. -/
theorem derefElement_ok (hel : s.heap.elem e = some el) : derefElement (some e) s = .ok el s := by
  obtain ⟨blk, hblk, rfl⟩ := Heap.exists_block_of_elem hel
  exact bind_of_ok (deref_of_block hblk)

/-- Writing to the data of an element. -/
theorem storeData_ok (hd : s.heap.dataAt e = some d) (f : ED → ED) :
    storeData (some e) f s = .ok () (s.setData e (f d)) := by
  obtain ⟨el, hel, rfl⟩ := Heap.exists_elem_of_dataAt hd
  obtain ⟨blk, hblk, rfl⟩ := Heap.exists_block_of_elem hel
  refine (store_of_block hblk).trans ?_
  rw [State.setData_of_block hblk]
  rfl

/-- Reading through a pointer leaves the state. -/
theorem leaves_deref (b : Option BlockPtr) :
    Leaves id (deref b : Exec (State W PD BD ED) (Block BD ED)) := fun s => by
  rcases b with - | b
  · exact ends_of_error (by unfold deref; rfl) rfl
  · cases hblk : s.heap.block b with
    | none =>
      have hgone : (deref (some b) : Exec (State W PD BD ED) (Block BD ED)) s =
          .error (.undefined .use_after_free) s := by
        unfold deref
        simp only [hblk]
      exact ends_of_error hgone rfl
    | some blk => exact ends_of_ok (deref_of_block hblk) rfl

/-- Reading an element changes nothing. -/
theorem leaves_derefElement (e : Option ElementPtr) :
    Leaves id (derefElement e : Exec (State W PD BD ED) (Element ED)) := by
  rcases e with - | e
  · exact leaves_throw _
  · exact (leaves_deref _).bind fun _ => leaves_pure _

/-- Writing to an element of a block that does not exist. -/
theorem storeData_gone (hblk : s.heap.block e.block = none) (f : ED → ED) :
    storeData (some e) f s = .error (.undefined .use_after_free) s := by
  unfold storeData store
  simp only [hblk]

/-- An element that has been written to exists, and has what has been written. -/
theorem ends_storeData (e : ElementPtr) (f : ED → ED) (s : State W PD BD ED) :
    Ends (storeData (some e) f) s (fun _ s' => ∃ d, s'.heap.dataAt e = some (f d)) fun _ _ => True := by
  cases hblk : s.heap.block e.block with
  | none => exact ends_of_error (storeData_gone hblk f) trivial
  | some blk =>
    have hat : s.heap.dataAt e = some (blk.start e.index).data := by
      rw [Heap.dataAt, Heap.elem_of_block hblk, Option.map_some]
    exact ends_of_ok (storeData_ok hat f) ⟨_, State.dataAt_setData_self hat⟩

/-- Writing the data of an element leaves the pool. -/
theorem leaves_storeData (e : Option ElementPtr) (f : ED → ED) :
    Leaves State.pool (storeData e f : Exec (State W PD BD ED) Unit) := by
  rcases e with - | e
  · exact leaves_throw _
  · intro s
    cases hblk : s.heap.block e.block with
    | none => exact ends_of_error (storeData_gone hblk f) rfl
    | some blk => exact ends_of_ok (store_of_block hblk) rfl

end L4Rdma.PA
