import L4Rdma.Pool.GiveBack

/-!
# The states that a pool can reach

The driver takes elements of a pool and gives used ones back, it writes to the data of elements and
of the pool itself, and it changes the world around the pool. An exception of one of these calls is
not caught anywhere, so the states that follow one another are those in which the calls return
(`Reached`). They are all well formed (`Reached.sound`), except that the first block may point back
to a destroyed one.
-/

namespace L4Rdma.PA

open Lib

variable {W PD BD ED : Type} {k : Kind W PD BD ED} {s s' s'' : State W PD BD ED} {m n : ℕ}

/-- A well-formed pool, whose first block may point back to a destroyed one. -/
structure Sound (s : State W PD BD ED) : Prop where
  block_size_pos : 0 < s.pool.block_size
  rep : ∃ pre l, Rep s pre l

/-- The states that a pool can reach. -/
inductive Reached (k : Kind W PD BD ED) : State W PD BD ED → Prop
  | empty {s : State W PD BD ED} (h : Empty s) : Reached k s
  | alloc {s s' : State W PD BD ED} {e : Option ElementPtr} (h : Reached k s)
    (hres : allocPage k s = .ok e s') : Reached k s'
  | free {s s' : State W PD BD ED} {e : ElementPtr} (h : Reached k s)
    (hused : ∀ pre l, Linked s pre l → UsedAt s l e) (hres : freePage k e s = .ok () s') :
    Reached k s'
  | write {s : State W PD BD ED} (h : Reached k s) (e : ElementPtr) (d : ED) :
    Reached k (s.setData e d)
  | other {s : State W PD BD ED} (h : Reached k s) (data : PD) (w : W) :
    Reached k { s with pool.data := data, world := w }

/-- The world and the data of a pool have no part in whether it is well formed. -/
theorem Rep.other {pre : Option BlockPtr} {l : List BlockPtr} (h : Rep s pre l) (data : PD) (w : W) :
    Rep { s with pool.data := data, world := w } pre l :=
  ⟨⟨h.seg, h.last, h.block_count, h.exist, h.unborn, h.pre_nil⟩, h.ok, h.size_eq, h.size_le,
    h.stale⟩

/-- There are at most as many used elements as the pool may have. -/
theorem Sound.size_le (h : Sound s) : s.pool.size ≤ s.pool.max := by
  obtain ⟨pre, l, hrep⟩ := h.rep
  exact hrep.size_le

/-- Writing the data of an element keeps the pool well formed. -/
theorem Sound.setData (h : Sound s) (e : ElementPtr) (d : ED) : Sound (s.setData e d) := by
  obtain ⟨pre, l, hrep⟩ := h.rep
  exact ⟨by rw [State.setData_pool]; exact h.block_size_pos, pre, l, hrep.setData e d⟩

/-- So does any change to the data of the pool and to what is around it. -/
theorem Sound.other (h : Sound s) (data : PD) (w : W) :
    Sound { s with pool.data := data, world := w } := by
  obtain ⟨pre, l, hrep⟩ := h.rep
  exact ⟨h.block_size_pos, pre, l, hrep.other data w⟩

/-- Freeing a used element leaves a well-formed pool, if it returns. -/
theorem Sound.free {e : ElementPtr} (h : Sound s) (hused : ∀ pre l, Linked s pre l → UsedAt s l e)
    (hres : freePage k e s = .ok () s') : Sound s' := by
  obtain ⟨pre, l, hrep⟩ := h.rep
  have he := hused pre l hrep.toLinked
  obtain ⟨blk, hblk⟩ := hrep.exist e.block he.1
  have hout := freePage_cases (k := k) hrep he hblk
  rw [hres] at hout
  cases hout with
  | keep hcount =>
    obtain ⟨hgiven, hrep'⟩ := given_keep hrep he hblk hcount
    exact ⟨hgiven.block_size ▸ h.block_size_pos, pre, l, hrep'⟩
  | drop hcount l₁ l₂ s₁ p hl hpre hp hrel hgone hdrop hrep' =>
    have hsize : s'.pool.block_size = s.pool.block_size := hdrop.same.block_size
    exact ⟨hsize ▸ h.block_size_pos, _, _, hrep'⟩

/-- Every state that a pool can reach is well formed. -/
theorem Reached.sound (h : Reached k s) : Sound s := by
  induction h with
  | empty h => exact ⟨h.block_size, none, [], h.rep⟩
  | @alloc s e s' _ hres ih =>
    obtain ⟨pre, l, hrep⟩ := ih.rep
    rcases allocPage_spec k hrep ih.block_size_pos with ⟨-, hfull⟩ | ⟨-, e', s₁, l', htaken, ht⟩ |
      ⟨-, what, s₁, hthrown, -⟩
    · rw [hres] at hfull
      cases hfull
      exact ih
    · rw [hres] at htaken
      cases htaken
      exact ⟨ht.block_size ▸ ih.block_size_pos, pre, l', ht.rep⟩
    · rw [hres] at hthrown
      cases hthrown
  | free _ hused hres ih => exact ih.free hused hres
  | write _ e d ih => exact ih.setData e d
  | other _ data w ih => exact ih.other data w

/-! ## Taking elements -/

/-- The pool stays well formed between `s` and `s'`, and `n` elements are taken. -/
structure Grew (s s' : State W PD BD ED) (n : ℕ) : Prop where
  sound : Sound s'
  size : s'.pool.size = s.pool.size + n
  max : s'.pool.max = s.pool.max

/-- Nothing has been taken. -/
theorem Sound.grew_zero (h : Sound s) : Grew s s 0 := ⟨h, rfl, rfl⟩

/-- Elements taken first and elements taken then. -/
theorem Grew.trans (h : Grew s s' m) (h' : Grew s' s'' n) : Grew s s'' (m + n) where
  sound := h'.sound
  size := by rw [h'.size, h.size, Nat.add_assoc]
  max := h'.max.trans h.max

/-- What has been taken was there. -/
theorem Grew.le (h : Grew s s' n) : s.pool.size + n ≤ s.pool.max := by
  have hle := h.sound.size_le
  rwa [h.size, h.max] at hle

/-- Writing the data of an element takes none. -/
theorem Sound.grew_setData (h : Sound s) (e : ElementPtr) (d : ED) : Grew s (s.setData e d) 0 where
  sound := h.setData e d
  size := by rw [State.setData_pool]; rfl
  max := by rw [State.setData_pool]

/-- Nor does a change to the data of the pool or to what is around it. -/
theorem Sound.grew_other (h : Sound s) (data : PD) (w : W) :
    Grew s { s with pool.data := data, world := w } 0 :=
  ⟨h.other data w, rfl, rfl⟩

/-- The blocks of a pool have an element that is not used exactly when they are not all full. -/
theorem Rep.size_lt_iff {pre : Option BlockPtr} {l : List BlockPtr} (h : Rep s pre l) :
    s.pool.size < s.pool.block_count * s.pool.block_size ↔ ¬ ∀ b ∈ l, Full s b := by
  have hle : ∀ b ∈ l, s.heap.count b ≤ s.pool.block_size := fun b hb => by
    obtain ⟨blk, hblk⟩ := h.exist b hb
    rw [Heap.count_of_block hblk, (h.blockOk hb hblk).count_eq]
    exact usedCount_le _ _
  -- Both sides are sums over the blocks, of the used elements and of all elements.
  have htotal : s.pool.block_count * s.pool.block_size =
      (l.map fun _ => s.pool.block_size).sum := by
    rw [h.block_count, List.map_const', List.sum_replicate_nat]
  rw [h.size_eq, htotal]
  constructor
  · -- If all blocks were full, the sums would be equal.
    intro hlt hfull
    have hcounts : l.map s.heap.count = l.map fun _ => s.pool.block_size := by
      apply List.map_congr_left
      intro b hb
      obtain ⟨blk, hblk, hnot⟩ := hfull b hb
      have hcount := hle b hb
      rw [Heap.count_of_block hblk] at hcount ⊢
      omega
    rw [hcounts] at hlt
    exact Nat.lt_irrefl _ hlt
  · -- A block that is not full makes the sum smaller.
    intro hnot
    push Not at hnot
    obtain ⟨b, hb, hfree⟩ := hnot
    apply List.sum_lt_sum _ _ hle
    refine ⟨b, hb, ?_⟩
    obtain ⟨blk, hblk⟩ := h.exist b hb
    by_contra hge
    rw [Heap.count_of_block hblk] at hge
    exact hfree ⟨blk, hblk, hge⟩

/-- A block with a first unused element is not full. -/
theorem Rep.not_full {pre : Option BlockPtr} {l : List BlockPtr} {b : BlockPtr} {blk : Block BD ED}
    {i : ℕ} (h : Rep s pre l) (hb : b ∈ l) (hblk : s.heap.block b = some blk)
    (hi : firstUnused blk s.pool.block_size = some i) : ¬ Full s b := by
  rintro ⟨blk', hblk', hnot⟩
  obtain rfl : blk = blk' := Option.some.inj (hblk.symm.trans hblk')
  obtain ⟨hlt, hunused, -⟩ := firstUnused_spec hi
  have hle := usedCount_le s.pool.block_size blk.start
  rw [(h.blockOk hb hblk).count_eq] at hnot
  have hall := usedCount_eq_iff.mp (Nat.le_antisymm hle (Nat.le_of_not_lt hnot)) i hlt
  rw [hunused] at hall
  cases hall

/-- An element is taken. -/
theorem Sound.grew_taken (h : Sound s) {pre : Option BlockPtr} {l l' : List BlockPtr}
    {e : ElementPtr} (ht : Taken k s s' pre l l' e) : Grew s s' 1 where
  sound := ⟨ht.block_size ▸ h.block_size_pos, pre, l', ht.rep⟩
  size := ht.size
  max := ht.max

end L4Rdma.PA

/-! ## Memory pages -/

namespace L4Rdma.MEM

open Lib PA

variable {s : State} {d : Dma}

/-- A kernel that refuses nothing. -/
structure L4Re.Grants (r : L4Re) : Prop where
  shift_le : r.superpageShift ≤ 62
  makeSharedCap : ∀ n, r.makeSharedCap n = true
  memAlloc : ∀ n size, r.memAlloc n size = true
  attach : ∀ n size, ∃ virt, r.attach n size = some virt
  map : ∀ n mapped size, ∃ phys, r.map n mapped size = some phys

/-- A kernel that has no end of memory and addresses. -/
def boundless : L4Re where
  superpageShift := 21
  makeSharedCap _ := true
  memAlloc _ _ := true
  attach _ size := some size
  map _ mapped _ := some (firstFree mapped)
  unmap _ _ := true

/-- This kernel grants everything. -/
theorem boundless_grants : boundless.Grants where
  shift_le := Nat.le_of_ble_eq_true rfl
  makeSharedCap _ := rfl
  memAlloc _ _ := rfl
  attach _ size := ⟨size, rfl⟩
  map _ mapped _ := ⟨firstFree mapped, rfl⟩

/-- The kernel gives memory of that size when it is asked now. -/
structure Dma.Gives (d : Dma) (size : ℕ) : Prop where
  makeSharedCap : d.services.makeSharedCap d.requests = true
  memAlloc : d.services.memAlloc d.requests (d.services.superpages size) = true
  attach : ∃ virt, d.services.attach d.requests (d.services.superpages size) = some virt
  map : ∃ phys, d.services.map d.requests d.mapped (d.services.superpages size) = some phys

/-- `alloc_dma_mem` returns exactly when the kernel gives the memory. -/
theorem allocDmaMem_returns_iff {size : ℕ} :
    (∃ m d', allocDmaMem size d = .ok m d') ↔ d.Gives size := by
  constructor
  · rintro ⟨m, d', hres⟩
    unfold allocDmaMem at hres
    rw [get_bind, modify_bind] at hres
    simp only at hres
    -- The calls to the kernel, in their order: the first refusal ends it.
    by_cases hcap : d.services.makeSharedCap d.requests = true
    swap
    · rw [if_pos (by simpa using hcap)] at hres
      cases hres
    by_cases hmem : d.services.memAlloc d.requests (d.services.superpages size) = true
    swap
    · rw [if_neg (by simpa using hcap), if_pos (by simpa using hmem)] at hres
      cases hres
    rw [if_neg (by simpa using hcap), if_neg (by simpa using hmem)] at hres
    cases hattach : d.services.attach d.requests (d.services.superpages size) with
    | none =>
      rw [hattach] at hres
      cases hres
    | some virt =>
      cases hmap : d.services.map d.requests d.mapped (d.services.superpages size) with
      | none =>
        rw [hattach, hmap] at hres
        cases hres
      | some phys => exact ⟨hcap, hmem, ⟨virt, hattach⟩, phys, hmap⟩
  · rintro ⟨hcap, hmem, ⟨virt, hattach⟩, phys, hmap⟩
    unfold allocDmaMem
    rw [get_bind, modify_bind]
    simp only [hcap, hmem, hattach, hmap]
    exact ⟨_, _, rfl⟩

/-- From a kernel that refuses nothing memory can always be had. -/
theorem L4Re.Grants.allocDmaMem (h : d.services.Grants) (size : ℕ) :
    ∃ m d', allocDmaMem size d = .ok m d' :=
  allocDmaMem_returns_iff.mpr
    ⟨h.makeSharedCap _, h.memAlloc _ _, h.attach _ _, h.map _ _ _⟩

/-- There is a page that is not used in the blocks of the pool, or the kernel gives another block. -/
def HasPage (s : State) : Prop :=
  s.pool.size < s.pool.block_count * s.pool.block_size ∨ s.world.Gives (blockBytes s.pool)

/-- In a pool that is not full, taking a page stops exactly when there is no page to be had. -/
theorem allocPage_hasPage (h : Sound s) (hlt : s.pool.size < s.pool.max) :
    Ends (PA.allocPage kind) s (fun _ _ => HasPage s) fun _ _ => ¬ HasPage s := by
  obtain ⟨pre, l, hrep⟩ := h.rep
  have hout := allocPage_cases (k := kind) hrep.toLinked h.block_size_pos fun b hb blk hblk =>
    (hrep.blockOk hb hblk).count_eq
  generalize hres : PA.allocPage kind s = res at hout
  cases hout with
  | full hmax => omega
  | found hne l₁ l₂ b blk i hl hfull hblk hi =>
    have hb : b ∈ l := by
      rw [hl]
      exact List.mem_append_right l₁ List.mem_cons_self
    exact ends_of_ok hres (.inl (hrep.size_lt_iff.mpr fun hall => hrep.not_full hb hblk hi (hall b hb)))
  | throws hne hfull m s₁ hset hs =>
    apply ends_of_error hres
    rintro (hsize | hgives)
    · exact hrep.size_lt_iff.mp hsize hfull
    · obtain ⟨mem, d', halloc⟩ := allocDmaMem_returns_iff.mpr hgives
      have hok : kind.setup s.pool s.world = .ok (mem, fun i _ => page mem i) d' := bind_of_ok halloc
      rw [hok] at hset
      cases hset
  | grows hne hfull bd ed w s₁ blk hset hgrown hlinked hblk hi =>
    obtain ⟨halloc, -⟩ := kind_setup_ok hset
    exact ends_of_ok hres (.inr (allocDmaMem_returns_iff.mp ⟨bd, w, halloc⟩))

/-- `alloc_page` takes a page when there is one. Otherwise it accesses a null pointer. -/
theorem allocPage_room (h : Sound s) :
    Ends allocPage s
      (fun mp s' => Grew s s' 1 ∧ s'.world.services = s.world.services ∧
        ∃ el, s'.heap.elem mp = some el)
      fun err _ => (err = .undefined .null_deref → s.pool.size = s.pool.max) ∧
        (s.world.services.Grants → err = .undefined .null_deref) := by
  obtain ⟨pre, l, hrep⟩ := h.rep
  rcases allocPage_spec kind hrep h.block_size_pos with ⟨hmax, hres⟩ | ⟨-, e, s', l', hres, ht⟩ |
    ⟨-, what, s', hres, -, -, -, -, hset⟩
  · have hnull : allocPage s = .error (.undefined .null_deref) s := bind_of_ok hres
    exact ends_of_error hnull ⟨fun _ => hmax, fun _ => rfl⟩
  · have hin : InPool s' l' e := inPool_of_usedAt ((ht.used e).mpr (.inr rfl))
    obtain ⟨p, hp⟩ := exists_physAt ht.rep hin
    obtain ⟨blk, hblk, -⟩ := exists_block_of_physAt hp
    have hservices : s'.world.services = s.world.services := by
      rcases ht.blocks with ⟨-, hworld⟩ | ⟨-, -, -, bd, ed, hset, -⟩
      · rw [hworld]
      · obtain ⟨halloc, -⟩ := kind_setup_ok hset
        exact (allocDmaMem_ok halloc).2.1
    have hgrew := (h.grew_taken ht).trans ((h.grew_taken ht).sound.grew_other
      ⟨Function.update s'.pool.data.index p (some e)⟩ s'.world)
    exact ends_of_ok (allocPage_of_taken hres hp)
      ⟨hgrew, hservices, _, Heap.elem_of_block hblk⟩
  · have hthrown : allocPage s = .error (.thrown what) s' := bind_of_error hres
    refine ends_of_error hthrown ⟨fun hnull => (nomatch hnull), fun hgrants => ?_⟩
    -- The setup of a block fails only when the kernel refuses memory.
    obtain ⟨m, d', halloc⟩ := hgrants.allocDmaMem (blockBytes s.pool)
    have hok : kind.setup s.pool s.world = .ok (m, fun i _ => page m i) d' := bind_of_ok halloc
    rw [hok] at hset
    cases hset

/-- In a pool that is not full it returns exactly when there is a page to be had. -/
theorem allocPage_ends (h : Sound s) (hlt : s.pool.size < s.pool.max) :
    Ends allocPage s (fun _ _ => HasPage s) fun _ _ => ¬ HasPage s := by
  obtain ⟨pre, l, hrep⟩ := h.rep
  have hpage := allocPage_hasPage h hlt
  rcases allocPage_spec kind hrep h.block_size_pos with ⟨hmax, -⟩ | ⟨-, e, s', l', hres, ht⟩ |
    ⟨-, what, s', hres, -⟩
  · omega
  · obtain ⟨p, hp⟩ := exists_physAt ht.rep (inPool_of_usedAt ((ht.used e).mpr (.inr rfl)))
    exact ends_of_ok (allocPage_of_taken hres hp) (hpage.1 _ _ hres)
  · have hthrown : allocPage s = .error (.thrown what) s' := bind_of_error hres
    exact ends_of_error hthrown (hpage.2 _ _ hres)

end L4Rdma.MEM
