import L4Rdma.Pool.InSync

/-!
# The stock of memory pages

The memory page pool has DMA memory mapped for each of its blocks, and unmapped with the block. `Stock`
adds to a pool in sync what this means for the DMA space: of what is mapped, exactly the memories of the
blocks belong to the pool, and every block has a used page. One operation that returns keeps it, also
when the first block points back to a destroyed one (`Stock.allocPage`, `Stock.freePage`). So after any
number of them the pool has the memory of the blocks of its used pages, and none at all without pages
(`runStock_refines`, `Accounted.empty`). A block has to be a whole number of superpages: otherwise more is
mapped for it than `free_dma_mem` unmaps.
-/

namespace L4Rdma.MEM

open Lib PA

variable {s s' : State} {pre pre' : Option BlockPtr} {l l' : List BlockPtr} {b : BlockPtr}
  {e e' : ElementPtr} {p q : ℕ} {m : DmaMem} {d d' : Dma} {g r : Region} {rs rest : List Region}

/-! ## Unmapping ranges -/

/-- What is mapped, without empty ranges. -/
def solid (rs : List Region) : List Region := rs.filter fun r => 0 < r.size

/-- A range that is mapped and not empty. -/
theorem mem_solid : r ∈ solid rs ↔ r ∈ rs ∧ 0 < r.size := by
  unfold solid
  rw [List.mem_filter, decide_eq_true_iff]

/-- Unmapping something else leaves a range as it is. -/
theorem minus_of_apart (hr : 0 < r.size) (h : r.Apart g) : r.minus g = [r] := by
  obtain ⟨phys, size⟩ := r
  unfold Region.minus
  simp only at hr ⊢
  rcases h with hle | hle
  · -- It lies before what is unmapped, and nothing of it is behind that.
    have hleft : min (phys + size) g.phys - phys = size := by
      simp only at hle
      omega
    have hright : phys + size - max phys (g.phys + g.size) = 0 := by
      simp only at hle
      omega
    simp [hleft, hright, hr]
  · have hleft : min (phys + size) g.phys - phys = 0 := by
      simp only at hle
      omega
    have hright : max phys (g.phys + g.size) = phys := max_eq_left hle
    simp [hleft, hright, hr]

/-- Unmapping a range leaves nothing of it. -/
theorem minus_self : g.minus g = [] := by
  unfold Region.minus
  simp

/-- Nothing is left of an empty range. -/
theorem minus_of_empty (hr : ¬ 0 < r.size) : r.minus g = [] := by
  obtain ⟨phys, size⟩ := r
  obtain rfl : size = 0 := by
    simp only at hr
    omega
  unfold Region.minus
  simp

/-- A range of those that are mapped is unmapped, and none of them has anything in common with
another. Then the others stay. -/
theorem solid_unmap (hapart : (solid rs).Pairwise Region.Apart) (hg : (solid rs).Perm (g :: rest)) :
    (solid (rs.flatMap fun r => r.minus g)).Perm rest := by
  have hrest : ∀ r ∈ rest, 0 < r.size ∧ r.Apart g := by
    have hpair := (hg.pairwise_iff (fun h => Or.symm h)).mp hapart
    intro r hr
    refine ⟨(mem_solid.mp (hg.mem_iff.mpr (List.mem_cons_of_mem _ hr))).2, ?_⟩
    exact ((List.pairwise_cons.mp hpair).1 r hr).symm
  have hstay : ∀ rs : List Region, (∀ r ∈ rs, 0 < r.size ∧ r.Apart g) →
      rs.flatMap (fun r => r.minus g) = rs := by
    intro rs
    induction rs with
    | nil => exact fun _ => rfl
    | cons r rs ih =>
      intro h
      obtain ⟨hr, hrg⟩ := h r List.mem_cons_self
      rw [List.flatMap_cons, minus_of_apart hr hrg, ih fun r' hr' => h r' (List.mem_cons_of_mem _ hr')]
      rfl
  -- Empty ranges do not matter.
  have hsolid : ∀ rs : List Region, rs.flatMap (fun r => r.minus g) =
      (solid rs).flatMap fun r => r.minus g := by
    intro rs
    induction rs with
    | nil => rfl
    | cons r rs ih =>
      unfold solid at ih ⊢
      by_cases hr : 0 < r.size
      · rw [List.filter_cons_of_pos (by simpa using hr), List.flatMap_cons, List.flatMap_cons, ih]
      · rw [List.filter_cons_of_neg (by simpa using hr), List.flatMap_cons, minus_of_empty hr, ih]
        rfl
  have hperm : (rs.flatMap fun r => r.minus g).Perm rest := by
    rw [hsolid]
    refine (hg.flatMap_right _).trans ?_
    rw [List.flatMap_cons, minus_self, List.nil_append, hstay rest hrest]
  have hself : solid rest = rest :=
    List.filter_eq_self.mpr fun r hr => decide_eq_true (hrest r hr).1
  have hfilter : (solid (rs.flatMap fun r => r.minus g)).Perm (solid rest) := hperm.filter _
  rwa [hself] at hfilter

/-- `free_dma_mem` unmaps the range from everything that is mapped. -/
theorem freeDmaMem_ok {size : ℕ} (h : freeDmaMem size m d = .ok () d') :
    d'.services = d.services ∧ d'.mapped = d.mapped.flatMap fun r => r.minus ⟨m.phys, size⟩ := by
  unfold freeDmaMem at h
  rw [get_bind, modify_bind] at h
  split_ifs at h
  · cases h
  · cases h
    exact ⟨rfl, rfl⟩

/-! ## The stock -/

/-- The DMA memories of the blocks of a list. -/
def blockRegions (s : State) (l : List BlockPtr) : List Region :=
  l.filterMap fun b => (dmaAt s b).map (regionOf s)

/-- The pool is in sync, each of its blocks has a used page, and of what is mapped, it has exactly the DMA
memories of its blocks. The rest belongs to others. -/
structure Stock (s : State) (pre : Option BlockPtr) (l : List BlockPtr) (rest : List Region) : Prop
    extends InSync s pre l where
  maps : s.world.services.Maps
  /-- A block is a whole number of superpages. -/
  bytes : blockBytes s.pool = HCA_PAGE_SIZE * s.pool.block_size
  whole : s.world.services.superpages (blockBytes s.pool) = blockBytes s.pool
  filled : ∀ b ∈ l, ∃ i, UsedAt s l ⟨b, i⟩
  mapped : (solid s.world.mapped).Perm (blockRegions s l ++ rest)
  disjoint : (solid s.world.mapped).Pairwise Region.Apart

/-- The region of a block is one of those of the blocks. -/
theorem mem_blockRegions (hb : b ∈ l) (hm : dmaAt s b = some m) : regionOf s m ∈ blockRegions s l :=
  List.mem_filterMap.mpr ⟨b, hb, by rw [hm]; rfl⟩

/-- The DMA memory of a block is mapped. -/
theorem Stock.regionOf_mem (h : Stock s pre l rest) (hb : b ∈ l) (hm : dmaAt s b = some m) :
    regionOf s m ∈ s.world.mapped :=
  (mem_solid.mp (h.mapped.mem_iff.mpr (List.mem_append_left _ (mem_blockRegions hb hm)))).1

/-- The kernel gives a new block memory that is apart from all that is mapped, so from every block. -/
theorem Stock.newRegion (h : Stock s pre l rest) : NewRegion s l := by
  intro m d halloc
  obtain ⟨hmap, -, -⟩ := allocDmaMem_ok halloc
  rw [h.whole, h.bytes] at hmap
  refine ⟨h.maps.fits _ _ _ _ hmap, fun b hb n hn => ?_⟩
  exact h.maps.apart _ _ _ _ hmap _ (h.regionOf_mem hb hn)

/-- The kernel has mapped at most one more region between two states of the DMA space. -/
inductive Grows (d : Dma) : Dma → Prop
  | same {d' : Dma} (hservices : d'.services = d.services) (hmapped : d'.mapped = d.mapped) : Grows d d'
  | map {d' : Dma} (n size phys : ℕ) (hmap : d.services.map n d.mapped size = some phys)
    (hservices : d'.services = d.services) (hmapped : d'.mapped = ⟨phys, size⟩ :: d.mapped) : Grows d d'

/-- Nothing has been mapped. -/
theorem grows_self (d : Dma) : Grows d d := .same rfl rfl

/-- `alloc_dma_mem` maps one region when it returns. -/
theorem ends_allocDmaMem (size : ℕ) (d : Dma) :
    Ends (allocDmaMem size) d (fun _ d' => Grows d d') fun _ _ => True := by
  refine ⟨fun m d' h => ?_, fun _ _ _ => trivial⟩
  obtain ⟨hmap, hservices, hmapped⟩ := allocDmaMem_ok h
  exact .map _ _ _ hmap hservices hmapped

/-- The stock after something has been mapped for someone else. -/
theorem Stock.grows (h : Stock s pre l rest) (hd : Grows s.world d) :
    ∃ rest', Stock { s with world := d } pre l rest' := by
  have hrep : Rep { s with world := d } pre l :=
    ⟨⟨h.seg, h.last, h.block_count, h.exist, h.unborn, h.pre_nil⟩, h.ok, h.size_eq, h.size_le, h.stale⟩
  have hsync : InSync { s with world := d } pre l :=
    ⟨⟨hrep, h.block_size_pos, h.split, h.fits, h.apart⟩, h.indexed⟩
  -- Only what is mapped may be different.
  have hstock : ∀ rest', d.services = s.world.services →
      (solid d.mapped).Perm (blockRegions s l ++ rest') → (solid d.mapped).Pairwise Region.Apart →
      Stock { s with world := d } pre l rest' := fun rest' hservices hmapped hdisjoint => by
    refine ⟨hsync, hservices ▸ h.maps, h.bytes, ?_, h.filled, hmapped, hdisjoint⟩
    show d.services.superpages (blockBytes s.pool) = blockBytes s.pool
    rw [hservices, h.whole]
  cases hd with
  | same hservices hmapped => exact ⟨rest, hstock rest hservices (hmapped ▸ h.mapped) (hmapped ▸ h.disjoint)⟩
  | map n size phys hmap hservices hmapped =>
    by_cases hsize : 0 < size
    · have hsolid : solid d.mapped = ⟨phys, size⟩ :: solid s.world.mapped := by
        rw [hmapped]
        exact List.filter_cons_of_pos (decide_eq_true hsize)
      refine ⟨⟨phys, size⟩ :: rest, hstock _ hservices ?_ ?_⟩
      · rw [hsolid]
        exact (h.mapped.cons _).trans List.perm_middle.symm
      · rw [hsolid]
        refine List.pairwise_cons.mpr ⟨fun r hr => ?_, h.disjoint⟩
        exact h.maps.apart _ _ _ _ hmap r (mem_solid.mp hr).1
    · have hsolid : solid d.mapped = solid s.world.mapped := by
        rw [hmapped]
        exact List.filter_cons_of_neg (by simpa using hsize)
      exact ⟨rest, hstock rest hservices (hsolid ▸ h.mapped) (hsolid ▸ h.disjoint)⟩

/-! ## Taking a page -/

/-- One page with the address `p` has been taken. -/
structure TookPage (s s' : State) (e : ElementPtr) (p : ℕ) : Prop where
  unindexed : s.pool.data.index p = none
  index : s'.pool.data.index = Function.update s.pool.data.index p (some e)
  size : s'.pool.size = s.pool.size + 1
  phys : physAt s' e = some p
  lt : p < 2 ^ 64

/-- Taking a page keeps the stock, with the memory of a new block if there is one. -/
theorem Stock.taken (h : Stock s pre l rest) (hres : PA.allocPage kind s = .ok (some e) s')
    (ht : Taken kind s s' pre l l' e) (hsync : InSync (withIndex s'
      (Function.update s.pool.data.index p (some e))) pre l') :
    Stock (withIndex s' (Function.update s.pool.data.index p (some e))) pre l' rest := by
  obtain ⟨hold, hblock⟩ := allocPage_blockData h.toRep h.block_size_pos hres
  -- The regions of the old blocks stay, as their memory and the block size do.
  have hregion : ∀ m, regionOf s' m = regionOf s m := fun m => by
    unfold regionOf
    rw [ht.block_size]
  have hregions : blockRegions s' l = blockRegions s l := by
    refine List.filterMap_congr fun b hb => ?_
    rw [show dmaAt s' b = dmaAt s b from hold b hb]
    exact congrFun (congrArg Option.map (funext hregion)) _
  have hbytes : blockBytes s'.pool = blockBytes s.pool := by rw [blockBytes, blockBytes, ht.block_size]
  have hbytes' : blockBytes s'.pool = HCA_PAGE_SIZE * s'.pool.block_size := by
    rw [hbytes, ht.block_size, h.bytes]
  -- So do their used pages.
  have hused : ∀ b ∈ l, ∃ i, UsedAt s' l' ⟨b, i⟩ := fun b hb => by
    obtain ⟨i, hi⟩ := h.filled b hb
    exact ⟨i, (ht.used _).mpr (.inl hi)⟩
  -- The page is in an old block, with nothing mapped, or in a new one.
  rcases ht.blocks with ⟨rfl, hworld⟩ | ⟨rfl, hnew, hfull, bd, ed, hsetup, -⟩
  · refine ⟨hsync, hworld ▸ h.maps, hbytes', ?_, hused, ?_, hworld ▸ h.disjoint⟩
    · show s'.world.services.superpages (blockBytes s'.pool) = blockBytes s'.pool
      rw [hworld, hbytes, h.whole]
    · show (solid s'.world.mapped).Perm (blockRegions s' l' ++ rest)
      rw [hworld, hregions]
      exact h.mapped
  · -- The new block has the memory that has just been mapped, which is apart from all that was mapped
    -- before.
    obtain ⟨halloc, -⟩ := kind_setup_ok hsetup
    obtain ⟨hmap, hservices, hmapped⟩ := allocDmaMem_ok halloc
    have hbd : dmaAt s' s.heap.fresh = some bd := hblock bd _ _ hsetup hfull
    have hwhole : s'.world.services.superpages (blockBytes s'.pool) = blockBytes s'.pool := by
      rw [hservices, hbytes, h.whole]
    have hpos : 0 < blockBytes s.pool := by
      rw [h.bytes]
      exact Nat.mul_pos (by decide) h.block_size_pos
    -- Its size is not zero, so its range is one that counts.
    have hsolid : solid s'.world.mapped = regionOf s bd :: solid s.world.mapped := by
      have hreg : regionOf s bd = ⟨bd.phys, blockBytes s.pool⟩ := by
        rw [regionOf, h.bytes]
      rw [hmapped, h.whole, hreg]
      exact List.filter_cons_of_pos (decide_eq_true hpos)
    -- And it comes to the regions of the blocks as the last one.
    have hall : blockRegions s' (l ++ [s.heap.fresh]) = blockRegions s l ++ [regionOf s bd] := by
      unfold blockRegions at hregions ⊢
      rw [List.filterMap_append, hregions, List.filterMap_cons, hbd, Option.map_some, hregion]
      rfl
    refine ⟨hsync, hservices ▸ h.maps, hbytes', hwhole, fun b hb => ?_, ?_, ?_⟩
    · rcases List.mem_append.mp hb with hb | hb
      · exact hused b hb
      · obtain rfl := List.mem_singleton.mp hb
        exact ⟨e.index, hnew ▸ (ht.used e).mpr (.inr rfl)⟩
    · show (solid s'.world.mapped).Perm (blockRegions s' (l ++ [s.heap.fresh]) ++ rest)
      rw [hsolid, hall, List.append_assoc]
      exact (h.mapped.cons _).trans List.perm_middle.symm
    · show (solid s'.world.mapped).Pairwise _
      rw [hsolid]
      refine List.pairwise_cons.mpr ⟨fun r hr => ?_, h.disjoint⟩
      rw [h.whole, h.bytes] at hmap
      exact h.maps.apart _ _ _ _ hmap r (mem_solid.mp hr).1

/-- `alloc_page` takes a page whose address was not in the index, and keeps the stock, or it stops. -/
theorem Stock.allocPage (h : Stock s pre l rest) :
    Ends MEM.allocPage s (fun e s' => ∃ l' p, Stock s' pre l' rest ∧ TookPage s s' e p)
      fun _ _ => True := by
  rcases allocPage_spec kind h.toRep h.block_size_pos with
    ⟨-, hfull⟩ | ⟨-, e, s', l', hres, ht⟩ | ⟨-, what, s', hres, -⟩
  · have herror : MEM.allocPage s = .error (.undefined .null_deref) s := bind_of_ok hfull
    exact ends_of_error herror trivial
  · have hin : InPool s' l' e := inPool_of_usedAt ((ht.used e).mpr (.inr rfl))
    obtain ⟨p, hp⟩ := exists_physAt ht.rep hin
    have hcut : Cut s' pre l' := h.toCut.taken h.newRegion hres ht
    -- A used page with the same address would be the page that was taken.
    have hnone : s.pool.data.index p = none := by
      by_contra hsome
      obtain ⟨e', he'⟩ := Option.ne_none_iff_exists'.mp hsome
      obtain ⟨hu, hp'⟩ := (h.indexed p e').mp he'
      have hin' : InPool s' l' e' := inPool_of_usedAt ((ht.used e').mpr (.inl hu))
      have hphys' : physAt s' e' = some p := by
        rw [physAt_taken ht hu.1]
        exact hp'
      exact ht.unused (hcut.distinct hin' hin hphys' hp ▸ hu)
    have hsync : InSync (withIndex s' (Function.update s.pool.data.index p (some e))) pre l' :=
      ⟨hcut.withIndex _, indexed_taken h.toInSync ht hp hnone⟩
    have hok := allocPage_of_taken hres hp
    rw [ht.pool_data] at hok
    obtain ⟨m, hm, hpage⟩ := hcut.pageOf hin hp
    have hlt : p < 2 ^ 64 := by
      have hfits := hcut.fits _ hin.1 m hm
      have hinside : p + HCA_PAGE_SIZE ≤ m.phys + HCA_PAGE_SIZE * s'.pool.block_size := hpage.inside
      have hbytes : 0 < HCA_PAGE_SIZE := by decide
      omega
    exact ends_of_ok hok ⟨l', p, h.taken hres ht hsync, hnone, rfl, ht.size, hp, hlt⟩
  · have herror : MEM.allocPage s = .error (.thrown what) s' := bind_of_error hres
    exact ends_of_error herror trivial

/-! ## Giving a page back -/

/-- The page with the address `p` has been given back. -/
structure GavePage (s s' : State) (p : ℕ) : Prop where
  indexed : s.pool.data.index p ≠ none
  index : s'.pool.data.index = Function.update s.pool.data.index p none
  size : s'.pool.size + 1 = s.pool.size

/-- The stock of the pool after the element `e` was given back, when the block of the element stays or its
memory is unmapped. -/
theorem Stock.given (h : Stock s pre l rest) {s₁ : State} (hs₁ : s₁.pool.block_size = s.pool.block_size)
    (hworld : s₁.world = s.world) (hused₁ : ∀ e', UsedAt s₁ l e' ↔ UsedAt s l e')
    (hdma₁ : ∀ b, dmaAt s₁ b = dmaAt s b) (hg : Given s₁ s' l l' e) (hsync : InSync s' pre' l')
    (hdma : ∀ b ∈ l', dmaAt s' b = dmaAt s₁ b)
    (hcases : l' = l ∧ s'.world = s₁.world ∨ ∃ l₁ l₂ m, l = l₁ ++ e.block :: l₂ ∧ l' = l₁ ++ l₂ ∧
      dmaAt s₁ e.block = some m ∧ freeDmaMem (blockBytes s.pool) m s₁.world = .ok () s'.world) :
    Stock s' pre' l' rest := by
  have hbs : s'.pool.block_size = s.pool.block_size := hg.block_size.trans hs₁
  have hbytes : blockBytes s'.pool = blockBytes s.pool := by rw [blockBytes, blockBytes, hbs]
  have hbytes' : blockBytes s'.pool = HCA_PAGE_SIZE * s'.pool.block_size := by
    rw [hbytes, hbs, h.bytes]
  have hregion : ∀ m, regionOf s' m = regionOf s m := fun m => by
    unfold regionOf
    rw [hbs]
  have hregions : ∀ k : List BlockPtr, k ⊆ l' → blockRegions s' k = blockRegions s k := by
    intro k hk
    refine List.filterMap_congr fun b hb => ?_
    rw [hdma b (hk hb), hdma₁]
    exact congrFun (congrArg Option.map (funext hregion)) _
  -- A block that stays has another used page, or the page was not one of it.
  have hfilled : ∀ b ∈ l', ∃ i, UsedAt s' l' ⟨b, i⟩ := fun b hb => by
    rcases hg.kept b hb with hne | hused
    · obtain ⟨i, hi⟩ := h.filled b (hg.sub hb)
      refine ⟨i, (hg.used _).mpr ⟨(hused₁ _).mpr hi, fun heq => hne ?_⟩⟩
      exact congrArg ElementPtr.block heq
    · exact hused
  rcases hcases with ⟨rfl, hsame⟩ | ⟨l₁, l₂, m, rfl, rfl, hm, hfree⟩
  · have hsame' : s'.world = s.world := hsame.trans hworld
    refine ⟨hsync, hsame' ▸ h.maps, hbytes', ?_, hfilled, ?_, hsame' ▸ h.disjoint⟩
    · rw [hsame', hbytes, h.whole]
    · rw [hsame', hregions l' fun _ hb => hb]
      exact h.mapped
  · -- The block is gone, and its region with it, which is the one that is unmapped.
    rw [hdma₁] at hm
    rw [hworld] at hfree
    obtain ⟨hservices, hmapped⟩ := freeDmaMem_ok hfree
    have hreg : (⟨m.phys, blockBytes s.pool⟩ : Region) = regionOf s m := by
      rw [regionOf, h.bytes]
    -- It is one of those that are mapped, and the others are apart from it.
    have hall : (solid s.world.mapped).Perm (regionOf s m :: (blockRegions s (l₁ ++ l₂) ++ rest)) := by
      refine h.mapped.trans ?_
      unfold blockRegions
      rw [List.filterMap_append, List.filterMap_cons, hm, Option.map_some, List.filterMap_append]
      rw [List.append_assoc, List.append_assoc]
      exact List.perm_middle
    have hsolid := solid_unmap h.disjoint hall
    refine ⟨hsync, hservices ▸ h.maps, hbytes', ?_, hfilled, ?_, ?_⟩
    · rw [hservices, hbytes, h.whole]
    · rw [hmapped, hreg, hregions _ fun _ hb => hb]
      exact hsolid
    · rw [hmapped, hreg]
      have hpair := (hall.pairwise_iff (fun h => Or.symm h)).mp h.disjoint
      exact (hsolid.pairwise_iff (fun h => Or.symm h)).mpr (List.pairwise_cons.mp hpair).2

/-- `free_page` gives the page back, and keeps the stock, or it stops. -/
theorem Stock.freePage (h : Stock s pre l rest) (p : ℕ) :
    Ends (MEM.freePage p) s (fun _ s' => ∃ pre' l', Stock s' pre' l' rest ∧ GavePage s s' p)
      fun _ _ => True := by
  cases hindex : s.pool.data.index p with
  | none =>
    -- An address that is not in the index is followed to a null pointer.
    have herror : MEM.freePage p s = .error (.undefined .null_deref)
        (withIndex s (Function.update s.pool.data.index p none)) := by
      unfold MEM.freePage
      rw [get_bind, hindex]
      rfl
    exact ends_of_error herror trivial
  | some e =>
    obtain ⟨hused, -⟩ := (h.indexed p e).mp hindex
    refine Ends.congr (freePage_of_index hindex) ?_
    -- The source takes the address out of the index first.
    generalize hs₁ : withIndex s (Function.update s.pool.data.index p none) = s₁
    have hrep : Rep s₁ pre l := hs₁ ▸ Rep.withIndex h.toRep _
    have hused₁ : UsedAt s₁ l e := hs₁ ▸ hused
    have hcut : Cut s₁ pre l := hs₁ ▸ h.toCut.withIndex _
    obtain ⟨blk, hblk⟩ := hrep.exist e.block hused₁.1
    have hm : dmaAt s₁ e.block = some blk.data := Heap.blockData_of_block hblk
    -- Nothing but the index has changed by that.
    have hsame : s₁.pool.block_size = s.pool.block_size ∧ s₁.world = s.world ∧
        (∀ e', UsedAt s₁ l e' ↔ UsedAt s l e') ∧ (∀ b, dmaAt s₁ b = dmaAt s b) ∧
        s₁.pool.size = s.pool.size := by
      subst hs₁
      exact ⟨rfl, rfl, fun _ => Iff.rfl, fun _ => rfl, rfl⟩
    obtain ⟨hbs, hworld, husedeq, hdmaeq, hsizeeq⟩ := hsame
    -- Whatever happens to the block, the stock follows from the accounts of the page and of the block.
    have hend : ∀ {s' pre' l'}, Given s₁ s' l l' e → (∀ b, b ≠ e.block → (b ∈ l' ↔ b ∈ l)) →
        Cut s' pre' l' → (∀ b ∈ l', dmaAt s' b = dmaAt s₁ b) →
        (l' = l ∧ s'.world = s₁.world ∨ ∃ l₁ l₂ m, l = l₁ ++ e.block :: l₂ ∧ l' = l₁ ++ l₂ ∧
          dmaAt s₁ e.block = some m ∧ freeDmaMem (blockBytes s.pool) m s₁.world = .ok () s'.world) →
        Stock s' pre' l' rest ∧ GavePage s s' p := by
      intro s' pre' l' hg hothers hcut' hdma hcases
      have hret : Returned s s' l l' p e := h.toInSync.returned hindex (hs₁ ▸ hg) hothers
      refine ⟨h.given hbs hworld husedeq hdmaeq hg ⟨hcut', hret.indexed⟩ hdma hcases, ?_, hret.index, ?_⟩
      · rw [hindex]
        exact Option.some_ne_none e
      · rw [hg.size, hsizeeq]
    have hout := freePage_cases (k := kind) hrep hused₁ hblk
    cases hres : PA.freePage kind e s₁ with
    | error err s' => exact ends_of_error hres trivial
    | ok u s' =>
      rw [hres] at hout
      refine ends_of_ok hres ?_
      cases hout with
      | keep hcount =>
        -- Another page of the block is used, and the block stays.
        obtain ⟨hg, hrep'⟩ := given_keep hrep hused₁ hblk hcount
        have hdma : ∀ b ∈ l, dmaAt (s₁.give e blk) b = dmaAt s₁ b := fun b _ =>
          blockData_put hblk (blk.give e.index) rfl b
        have hcut' := hcut.of_subset hrep' (fun _ hb => hb) hg.block_size hdma hg.data
        exact ⟨pre, l, hend hg (fun _ _ => Iff.rfl) hcut' hdma (.inl ⟨rfl, rfl⟩)⟩
      | drop hcount l₁ l₂ s₂ pool hl hpre hp hrel hgone hdrop hrep' =>
        subst hl
        -- The last used page was given back, and the block is unmapped.
        have hg := given_drop hrep hused₁ hblk hcount hdrop
        have hdma : ∀ b ∈ l₁ ++ l₂, dmaAt s' b = dmaAt s₁ b := fun b hb =>
          dmaAt_dropped hblk hdrop (hrep.toLinked.ne_of_mem hb)
        have hcut' := hcut.of_subset hrep' hg.sub hg.block_size hdma hg.data
        have hbytes : blockBytes pool = blockBytes s.pool := by
          rw [blockBytes, blockBytes, ← hbs]
          exact congrArg (fun n => HCA_PAGE_SIZE * n % 2 ^ 64) hp.block_size
        have hfree : freeDmaMem (blockBytes pool) blk.data s₁.world = .ok () s'.world := hrel
        exact ⟨_, _, hend hg (fun b hne => mem_of_split hne) hcut' hdma
          (.inr ⟨l₁, l₂, blk.data, rfl, rfl, hm, hbytes ▸ hfree⟩)⟩

/-! ## The set of used pages -/

variable {H : Finset ℕ}

/-- The pool with a stock, and `H` has the addresses of its used pages. -/
structure Stocked (s : State) (rest : List Region) (H : Finset ℕ) : Prop where
  stock : ∃ pre l, Stock s pre l rest
  index : ∀ p, p ∈ H ↔ s.pool.data.index p ≠ none
  card : H.card = s.pool.size

/-- What is mapped for others has no share in the set. -/
theorem Stocked.grows (h : Stocked s rest H) (hd : Grows s.world d) :
    ∃ rest', Stocked { s with world := d } rest' H := by
  obtain ⟨pre, l, hstock⟩ := h.stock
  obtain ⟨rest', hstock'⟩ := hstock.grows hd
  exact ⟨rest', ⟨pre, l, hstock'⟩, h.index, h.card⟩

/-- `alloc_page` puts a new address into the set. -/
theorem Stocked.allocPage (h : Stocked s rest H) :
    Ends MEM.allocPage s (fun e s' => ∃ p, p ∉ H ∧ p < 2 ^ 64 ∧ physAt s' e = some p ∧
      Stocked s' rest (insert p H)) fun _ _ => True := by
  obtain ⟨pre, l, hstock⟩ := h.stock
  refine hstock.allocPage.mono ?_ fun _ _ _ => trivial
  rintro e s' ⟨l', p, hstock', htook⟩
  have hnew : p ∉ H := fun hp => (h.index p).mp hp htook.unindexed
  refine ⟨p, hnew, htook.lt, htook.phys, ⟨pre, l', hstock'⟩, fun q => ?_, ?_⟩
  · rw [Finset.mem_insert, h.index, htook.index]
    by_cases hqp : q = p
    · simp [hqp]
    · simp [hqp]
  · rw [Finset.card_insert_of_notMem hnew, h.card, htook.size]

/-- `free_page` takes an address out of the set. -/
theorem Stocked.freePage (h : Stocked s rest H) (p : ℕ) :
    Ends (MEM.freePage p) s (fun _ s' => p ∈ H ∧ Stocked s' rest (H.erase p)) fun _ _ => True := by
  obtain ⟨pre, l, hstock⟩ := h.stock
  refine (hstock.freePage p).mono ?_ fun _ _ _ => trivial
  rintro _ s' ⟨pre', l', hstock', hgave⟩
  have hmem : p ∈ H := (h.index p).mpr hgave.indexed
  refine ⟨hmem, ⟨pre', l', hstock'⟩, fun q => ?_, ?_⟩
  · rw [Finset.mem_erase, h.index, hgave.index]
    by_cases hqp : q = p
    · simp [hqp]
    · simp [hqp]
  · have hcard := Finset.card_erase_of_mem hmem
    have hsize := hgave.size
    rw [h.card] at hcard
    omega

/-- The page at an address lies in a region. -/
def Within (p : ℕ) (r : Region) : Prop := r.phys ≤ p ∧ p + HCA_PAGE_SIZE ≤ r.phys + r.size

/-- What the set says about memory. Its pages have nothing in common. Of what is mapped, the pool has
regions of the size of a block, as many as it has blocks, in which all its pages lie and each of which has a
page; the rest belongs to others. -/
structure Accounted (s : State) (rest : List Region) (H : Finset ℕ) : Prop where
  card : H.card = s.pool.size
  apart : ∀ p ∈ H, ∀ q ∈ H, p ≠ q → p + HCA_PAGE_SIZE ≤ q ∨ q + HCA_PAGE_SIZE ≤ p
  memory : ∃ regions : List Region, (solid s.world.mapped).Perm (regions ++ rest) ∧
    regions.Pairwise Region.Apart ∧ regions.length = s.pool.block_count ∧
    (∀ r ∈ regions, r.size = HCA_PAGE_SIZE * s.pool.block_size) ∧
    (∀ p ∈ H, ∃ r ∈ regions, Within p r) ∧ ∀ r ∈ regions, ∃ p ∈ H, Within p r
  few : s.pool.block_count ≤ H.card
  enough : H.card ≤ s.pool.block_count * s.pool.block_size

/-- Without pages the pool has no memory. -/
theorem Accounted.empty (h : Accounted s rest ∅) : (solid s.world.mapped).Perm rest := by
  obtain ⟨regions, hmapped, -, -, -, -, hused⟩ := h.memory
  have hnone : regions = [] := List.eq_nil_iff_forall_not_mem.mpr fun r hr => by
    obtain ⟨p, hp, -⟩ := hused r hr
    exact absurd hp (Finset.notMem_empty p)
  rwa [hnone, List.nil_append] at hmapped

/-- Pages at different addresses have nothing in common. -/
theorem Cut.pages_apart (h : Cut s pre l) (he : InPool s l e) (he' : InPool s l e')
    (hp : physAt s e = some p) (hq : physAt s e' = some q) (hne : p ≠ q) :
    p + HCA_PAGE_SIZE ≤ q ∨ q + HCA_PAGE_SIZE ≤ p := by
  obtain ⟨m, hm, hphys, hin⟩ := h.pageOf he hp
  obtain ⟨n, hn, hphys', hin'⟩ := h.pageOf he' hq
  have hbytes : 0 < HCA_PAGE_SIZE := by decide
  by_cases hb : e.block = e'.block
  · -- In one block they are a whole number of pages apart.
    rw [hb, hn] at hm
    cases hm
    rcases Nat.lt_trichotomy e.index e'.index with hlt | heq | hlt
    · have hmul := Nat.mul_le_mul_right HCA_PAGE_SIZE hlt
      rw [Nat.succ_mul] at hmul
      exact .inl (by omega)
    · exact absurd (by rw [hphys, hphys', heq]) hne
    · have hmul := Nat.mul_le_mul_right HCA_PAGE_SIZE hlt
      rw [Nat.succ_mul] at hmul
      exact .inr (by omega)
  · rcases h.apart _ he.1 _ he'.1 hb m n hm hn with hle | hle
    · have hge : (regionOf s n).phys ≤ q := by rw [hphys']; exact Nat.le_add_right _ _
      exact .inl (by omega)
    · have hge : (regionOf s m).phys ≤ p := by rw [hphys]; exact Nat.le_add_right _ _
      exact .inr (by omega)

/-- Each block has at least one used page, and at most as many as it has pages. -/
theorem Stock.count_bounds (h : Stock s pre l rest) (hb : b ∈ l) :
    1 ≤ s.heap.count b ∧ s.heap.count b ≤ s.pool.block_size := by
  obtain ⟨blk, hblk⟩ := h.exist b hb
  rw [Heap.count_of_block hblk]
  refine ⟨(h.toRep.count_pos_iff hb hblk).mpr (h.filled b hb), ?_⟩
  rw [(h.toRep.blockOk hb hblk).count_eq]
  exact usedCount_le _ _

/-- There are as many regions as blocks. -/
theorem Stock.length_blockRegions (h : Stock s pre l rest) :
    (blockRegions s l).length = s.pool.block_count := by
  have hlength : (blockRegions s l).length = l.length := by
    unfold blockRegions
    rw [List.length_filterMap_eq_countP, List.countP_eq_length]
    intro b hb
    obtain ⟨m, hm⟩ := exists_dmaAt h.toRep hb
    rw [hm]
    rfl
  rw [hlength, h.block_count]

/-- The number of used pages is between the number of blocks and the number of their pages. -/
theorem Stock.size_bounds (h : Stock s pre l rest) :
    s.pool.block_count ≤ s.pool.size ∧ s.pool.size ≤ s.pool.block_count * s.pool.block_size := by
  have hsum : (l.map s.heap.count).sum = s.pool.size := h.size_eq.symm
  rw [h.block_count]
  constructor
  · have hle := List.card_nsmul_le_sum (l.map s.heap.count) 1 fun n hn => by
      obtain ⟨b, hb, rfl⟩ := List.mem_map.mp hn
      exact (h.count_bounds hb).1
    rwa [List.length_map, smul_eq_mul, Nat.mul_one, hsum] at hle
  · have hle := List.sum_le_card_nsmul (l.map s.heap.count) s.pool.block_size fun n hn => by
      obtain ⟨b, hb, rfl⟩ := List.mem_map.mp hn
      exact (h.count_bounds hb).2
    rwa [List.length_map, smul_eq_mul, hsum] at hle

/-- A page of the pool lies in the region of its block. -/
theorem Stock.within (h : Stock s pre l rest) (he : InPool s l e) (hp : physAt s e = some p) :
    ∃ m, dmaAt s e.block = some m ∧ Within p (regionOf s m) := by
  obtain ⟨m, hm, hphys, hin⟩ := h.toCut.pageOf he hp
  refine ⟨m, hm, ?_, hin⟩
  rw [hphys]
  exact Nat.le_add_right _ _

/-- The stock accounts for the memory. -/
theorem Stocked.accounted (h : Stocked s rest H) : Accounted s rest H := by
  obtain ⟨pre, l, hstock⟩ := h.stock
  -- The pages of the set are the used pages of the pool.
  have hpage : ∀ p ∈ H, ∃ e, InPool s l e ∧ physAt s e = some p := fun p hp => by
    obtain ⟨e, he⟩ := Option.ne_none_iff_exists'.mp ((h.index p).mp hp)
    obtain ⟨hused, hphys⟩ := (hstock.indexed p e).mp he
    exact ⟨e, inPool_of_usedAt hused, hphys⟩
  have hmem : ∀ e p, UsedAt s l e → physAt s e = some p → p ∈ H := fun e p hused hp =>
    (h.index p).mpr (by rw [(hstock.indexed p e).mpr ⟨hused, hp⟩]; exact Option.some_ne_none e)
  have hapart : (blockRegions s l).Pairwise Region.Apart :=
    (List.pairwise_append.mp ((hstock.mapped.pairwise_iff (fun h => Or.symm h)).mp
      hstock.disjoint)).1
  constructor
  · exact h.card
  · intro p hp q hq hne
    obtain ⟨e, he, hpe⟩ := hpage p hp
    obtain ⟨e', he', hqe⟩ := hpage q hq
    exact hstock.toCut.pages_apart he he' hpe hqe hne
  · refine ⟨blockRegions s l, hstock.mapped, hapart, hstock.length_blockRegions, fun r hr => ?_,
      fun p hp => ?_, fun r hr => ?_⟩
    · obtain ⟨b, -, hreg⟩ := List.mem_filterMap.mp hr
      obtain ⟨m, -, rfl⟩ := Option.map_eq_some_iff.mp hreg
      rfl
    · obtain ⟨e, he, hpe⟩ := hpage p hp
      obtain ⟨m, hm, hwithin⟩ := hstock.within he hpe
      exact ⟨regionOf s m, mem_blockRegions he.1 hm, hwithin⟩
    · -- The block of the region has a used page, whose address is in the set.
      obtain ⟨b, hb, hreg⟩ := List.mem_filterMap.mp hr
      obtain ⟨m, hm, rfl⟩ := Option.map_eq_some_iff.mp hreg
      obtain ⟨i, hused⟩ := hstock.filled b hb
      have hin : InPool s l ⟨b, i⟩ := inPool_of_usedAt hused
      obtain ⟨p, hp⟩ := exists_physAt hstock.toRep hin
      obtain ⟨m', hm', hwithin⟩ := hstock.within hin hp
      obtain rfl : m' = m := Option.some.inj (hm'.symm.trans hm)
      exact ⟨p, hmem _ p hused hp, hwithin⟩
  · rw [h.card]
    exact hstock.size_bounds.1
  · rw [h.card]
    exact hstock.size_bounds.2

/-! ## Runs -/

/-- A call of a function for memory pages that returns: `alloc_page` with the address of the page that it
returns, and `free_page` with the address that it is given. -/
inductive PageCall
  | alloc (phys : Option ℕ)
  | free (phys : ℕ)

/-- What a call leaves, if it returns, and with that page. -/
def nextPage (s : State) : PageCall → Option State
  | .alloc phys =>
    match MEM.allocPage s with
    | .ok e s' => if physAt s' e = phys then some s' else none
    | .error _ _ => none
  | .free phys =>
    match MEM.freePage phys s with
    | .ok () s' => some s'
    | .error _ _ => none

/-- A call that returns. -/
def PageStep (s : State) (c : PageCall) (s' : State) : Prop := nextPage s c = some s'

/-- What such a call is for: it takes an address that is not used, which is that of the page returned, or
gives a used one back. -/
def SetStep (H : Finset ℕ) (c : PageCall) (H' : Finset ℕ) : Prop :=
  match c with
  | .alloc phys => ∃ p, phys = some p ∧ p ∉ H ∧ p < 2 ^ 64 ∧ H' = insert p H
  | .free p => p ∈ H ∧ H' = H.erase p

/-- The calls of `alloc_page` that return are steps, each for the page that it returns. -/
theorem pageStep_alloc_iff {phys : Option ℕ} : PageStep s (.alloc phys) s' ↔
    ∃ e, MEM.allocPage s = .ok e s' ∧ physAt s' e = phys := by
  unfold PageStep nextPage
  cases MEM.allocPage s with
  | error err s₁ => simp
  | ok e s₁ =>
    simp only [EStateM.Result.ok.injEq, Option.ite_none_right_eq_some, Option.some.injEq]
    constructor
    · rintro ⟨hphys, rfl⟩
      exact ⟨e, ⟨rfl, rfl⟩, hphys⟩
    · rintro ⟨_, ⟨rfl, rfl⟩, hphys⟩
      exact ⟨hphys, rfl⟩

/-- So are the calls of `free_page` that return. -/
theorem pageStep_free_iff : PageStep s (.free p) s' ↔ MEM.freePage p s = .ok () s' := by
  unfold PageStep nextPage
  cases hok : MEM.freePage p s with
  | error err s₁ => simp [hok]
  | ok u s₁ => simp [hok]

/-- A call does to the set what it is for. -/
theorem Stocked.step {c : PageCall} (h : Stocked s rest H) (hstep : PageStep s c s') :
    ∃ H', SetStep H c H' ∧ Stocked s' rest H' := by
  cases c with
  | alloc phys =>
    obtain ⟨e, hok, hphys⟩ := pageStep_alloc_iff.mp hstep
    obtain ⟨p, hnew, hlt, hp, h'⟩ := h.allocPage.1 _ _ hok
    exact ⟨insert p H, ⟨p, hphys.symm.trans hp, hnew, hlt, rfl⟩, h'⟩
  | free p =>
    obtain ⟨hmem, h'⟩ := (h.freePage p).1 _ _ (pageStep_free_iff.mp hstep)
    exact ⟨H.erase p, ⟨hmem, rfl⟩, h'⟩

/-- Any calls that return, one after the other, do to the set of the used pages what they are for, and
the memory that is mapped for the pool is accounted for by this set. -/
theorem runStock_refines (s₀ s : State) (rest : List Region) (H₀ : Finset ℕ)
    (calls : List (State × PageCall)) (h : Stocked s₀ rest H₀) (hrun : Run PageStep s₀ calls s) :
    ∃ sets H, Run SetStep H₀ sets H ∧ sets.map Prod.snd = calls.map Prod.snd ∧ Accounted s rest H := by
  -- The set goes along with the stock.
  suffices ∃ sets H, Run SetStep H₀ sets H ∧ sets.map Prod.snd = calls.map Prod.snd ∧
      Stocked s rest H by
    obtain ⟨sets, H, hsets, hevents, hstocked⟩ := this
    exact ⟨sets, H, hsets, hevents, hstocked.accounted⟩
  induction hrun with
  | nil => exact ⟨[], H₀, .nil, rfl, h⟩
  | snoc _ hstep ih =>
    obtain ⟨sets, H, hsets, hevents, hstocked⟩ := ih
    obtain ⟨H', hset, hstocked'⟩ := hstocked.step hstep
    refine ⟨_, H', hsets.snoc hset, ?_, hstocked'⟩
    rw [List.map_append, List.map_append, hevents]
    rfl

/-- What is left of a set by a call. -/
def PageCall.apply (H : Finset ℕ) : PageCall → Finset ℕ
  | .alloc phys => phys.elim H fun p => insert p H
  | .free p => H.erase p

/-- A run on sets does what its calls do one after the other. -/
theorem runSet_eq {sets : List (Finset ℕ × PageCall)} {H₀ : Finset ℕ} (h : Run SetStep H₀ sets H) :
    H = (sets.map Prod.snd).foldl PageCall.apply H₀ := by
  induction h with
  | nil => rfl
  | @snoc sets H H' c hrun hstep ih =>
    rw [List.map_append, List.foldl_append, ← ih]
    cases c with
    | alloc phys =>
      obtain ⟨p, rfl, -, -, rfl⟩ := hstep
      rfl
    | free p => exact hstep.2

/-- A pool without blocks has no memory. Its blocks will be whole superpages. -/
theorem stocked_empty (h : Empty s) (hmaps : s.world.services.Maps)
    (hbytes : HCA_PAGE_SIZE * s.pool.block_size ≤ 2 ^ 62)
    (hshift : s.world.services.superpageShift ≤ 62)
    (hwhole : 2 ^ s.world.services.superpageShift ∣ HCA_PAGE_SIZE * s.pool.block_size)
    (hindex : ∀ p, s.pool.data.index p = none)
    (hdisjoint : (solid s.world.mapped).Pairwise Region.Apart) :
    Stocked s (solid s.world.mapped) ∅ where
  stock := by
    have hblock : blockBytes s.pool = HCA_PAGE_SIZE * s.pool.block_size :=
      Nat.mod_eq_of_lt (by omega)
    have hcut : Cut s none [] :=
      ⟨h.rep, h.block_size, fun _ hb => absurd hb List.not_mem_nil,
        fun _ hb => absurd hb List.not_mem_nil, fun _ hb => absurd hb List.not_mem_nil⟩
    have hindexed : Indexed s [] := fun p e =>
      ⟨fun he => absurd (he.symm.trans (hindex p)) (Option.some_ne_none e),
        fun he => absurd he.1.1 List.not_mem_nil⟩
    have hsuper : s.world.services.superpages (blockBytes s.pool) = blockBytes s.pool := by
      rw [hblock]
      exact (superpages_eq_iff hbytes hshift).mpr hwhole
    exact ⟨none, [], ⟨hcut, hindexed⟩, hmaps, hblock, hsuper,
      fun _ hb => absurd hb List.not_mem_nil, List.Perm.refl _, hdisjoint⟩
  index p := ⟨fun hp => absurd hp (Finset.notMem_empty p), fun hp => absurd (hindex p) hp⟩
  card := h.size.symm

/-! ## A run over two blocks -/

/-- A pool whose blocks have two pages, on a kernel with superpages of that size. -/
def pairPool : State where
  world := { services := { roomy with superpageShift := 13 }, requests := 0, mapped := [] }
  pool := { initPool.pool with max := 8, block_size := 2 }
  heap := initPool.heap

/-- Five pages are taken from three blocks. The last of them is given back, and its block with it. The
first block gives a page back and takes it again, and then the first two blocks give one page back each. -/
def pairCalls : List PageCall :=
  [.alloc (some 0), .alloc (some 0x1000), .alloc (some 0x2000), .alloc (some 0x3000),
    .alloc (some 0x4000), .free 0x4000, .free 0, .alloc (some 0), .free 0x1000, .free 0x3000]

/-- These calls with the states they are made in. -/
def pairSteps : List (State × PageCall) := traceM nextPage pairPool pairCalls

/-- At the end there are two blocks, each with one used page. -/
theorem pairPool_refines : ∃ s sets H, Run PageStep pairPool pairSteps s ∧
    pairSteps.map Prod.snd = pairCalls ∧ s.pool.block_count = 2 ∧ Run SetStep ∅ sets H ∧
    sets.map Prod.snd = pairSteps.map Prod.snd ∧ H = {0, 0x2000} ∧ Accounted s [] H := by
  have hpair : ((pairCalls.foldlM nextPage pairPool).any
      fun s => s.pool.block_count == 2) = true := by decide +kernel
  have hstocked : Stocked pairPool [] ∅ :=
    stocked_empty ⟨rfl, rfl, rfl, by decide, fun _ => rfl⟩ ⟨roomy_maps.fits, roomy_maps.apart⟩
      (by decide) (by decide) (by decide) (fun _ => rfl) List.Pairwise.nil
  obtain ⟨s, hs, hcount⟩ := (Option.any_eq_true ..).mp hpair
  obtain ⟨hrun, hcalls⟩ := run_traceM hs
  obtain ⟨sets, H, hsets, hevents, haccounted⟩ :=
    runStock_refines pairPool s [] ∅ pairSteps hstocked hrun
  have hH : H = pairCalls.foldl PageCall.apply ∅ := by
    rw [runSet_eq hsets, hevents]
    exact congrArg _ hcalls
  exact ⟨s, sets, H, hrun, hcalls, beq_iff_eq.mp hcount, hsets, hevents,
    hH.trans (by decide), haccounted⟩

end L4Rdma.MEM
