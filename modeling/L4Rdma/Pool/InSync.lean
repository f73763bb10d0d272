import L4Rdma.Pool.GiveBack

/-!
# The index of the memory pages

The memory page pool keeps its used pages twice: as the used elements of its blocks, and in an index
by their address. `InSync` says that the two agree. Addresses identify pages because each block is
cut into pages of its own DMA memory, and the DMA memories of the blocks have no address in common
(`Cut.distinct`). That a new block gets such memory is up to the kernel (`NewRegion`).
`InSync.allocPage` and `InSync.freePage` say what one operation does, and that it keeps the two in
agreement.
-/

namespace L4Rdma.MEM

open Lib PA

variable {s s' : State} {pre pre' : Option BlockPtr} {l l' : List BlockPtr} {b : BlockPtr}
  {e e' : ElementPtr} {p q : ℕ} {m : DmaMem}

/-! ## Agreement -/

/-- Two ranges of addresses have none in common. -/
def Region.Apart (g g' : Region) : Prop :=
  g.phys + g.size ≤ g'.phys ∨ g'.phys + g'.size ≤ g.phys

/-- The DMA memory of a block. -/
def dmaAt (s : State) (b : BlockPtr) : Option DmaMem := s.heap.blockData b

/-- The addresses of the pages that a block with this DMA memory has. -/
def regionOf (s : State) (m : DmaMem) : Region := ⟨m.phys, HCA_PAGE_SIZE * s.pool.block_size⟩

/-- The index has the addresses of the used pages and no others, each with its own page. -/
def Indexed (s : State) (l : List BlockPtr) : Prop :=
  ∀ p e, s.pool.data.index p = some e ↔ UsedAt s l e ∧ physAt s e = some p

/-- The pool is well formed, and its blocks are cut into pages of DMA memories that are apart from
one another. -/
structure Cut (s : State) (pre : Option BlockPtr) (l : List BlockPtr) : Prop
    extends Rep s pre l where
  block_size_pos : 0 < s.pool.block_size
  split : ∀ b ∈ l, ∀ m, dmaAt s b = some m → ∀ i < s.pool.block_size,
    s.heap.dataAt ⟨b, i⟩ = some (page m i)
  fits : ∀ b ∈ l, ∀ m, dmaAt s b = some m → m.phys + HCA_PAGE_SIZE * s.pool.block_size ≤ 2 ^ 64
  apart : ∀ b ∈ l, ∀ c ∈ l, b ≠ c → ∀ m n, dmaAt s b = some m → dmaAt s c = some n →
    (regionOf s m).Apart (regionOf s n)

/-- The pool is well formed, its pages have different addresses, and its index has the used ones. -/
structure InSync (s : State) (pre : Option BlockPtr) (l : List BlockPtr) : Prop
    extends Cut s pre l where
  indexed : Indexed s l

/-- The kernel gives a new block DMA memory that is apart from that of every block. -/
def NewRegion (s : State) (l : List BlockPtr) : Prop :=
  ∀ m d, allocDmaMem (blockBytes s.pool) s.world = .ok m d →
    m.phys + HCA_PAGE_SIZE * s.pool.block_size ≤ 2 ^ 64 ∧
      ∀ b ∈ l, ∀ n, dmaAt s b = some n → (regionOf s m).Apart (regionOf s n)

/-! ## Addresses -/

/-- A page lies within the DMA memory of its block, at a multiple of the page size. -/
structure PageOf (s : State) (m : DmaMem) (i p : ℕ) : Prop where
  phys : p = m.phys + i * HCA_PAGE_SIZE
  inside : p + HCA_PAGE_SIZE ≤ (regionOf s m).phys + (regionOf s m).size

/-- The address of page `i` of a DMA memory. -/
theorem pageOf_page {i : ℕ} (hfits : m.phys + HCA_PAGE_SIZE * s.pool.block_size ≤ 2 ^ 64)
    (hi : i < s.pool.block_size) : PageOf s m i (page m i).phys := by
  obtain ⟨hphys, -⟩ := page_phys hfits (Nat.le_refl _) hi
  refine ⟨hphys, ?_⟩
  have hnext : (i + 1) * HCA_PAGE_SIZE ≤ HCA_PAGE_SIZE * s.pool.block_size := by
    rw [Nat.mul_comm]
    exact Nat.mul_le_mul_left _ hi
  rw [hphys]
  show m.phys + i * HCA_PAGE_SIZE + HCA_PAGE_SIZE ≤ m.phys + HCA_PAGE_SIZE * s.pool.block_size
  rw [Nat.succ_mul] at hnext
  omega

/-- Every block of the pool has DMA memory. -/
theorem exists_dmaAt (h : Rep s pre l) (hb : b ∈ l) : ∃ m, dmaAt s b = some m := by
  obtain ⟨blk, hblk⟩ := h.exist b hb
  exact ⟨blk.data, Heap.blockData_of_block hblk⟩

/-- The address of a page of the pool. -/
theorem Cut.pageOf (h : Cut s pre l) (he : InPool s l e) (hp : physAt s e = some p) :
    ∃ m, dmaAt s e.block = some m ∧ PageOf s m e.index p := by
  obtain ⟨m, hm⟩ := exists_dmaAt h.toRep he.1
  have hdata := h.split e.block he.1 m hm e.index he.2
  rw [physAt, hdata] at hp
  obtain rfl : (page m e.index).phys = p := Option.some.inj hp
  exact ⟨m, hm, pageOf_page (h.fits e.block he.1 m hm) he.2⟩

/-- No two pages of the pool have the same address. -/
theorem Cut.distinct (h : Cut s pre l) (he : InPool s l e) (he' : InPool s l e')
    (hp : physAt s e = some p) (hp' : physAt s e' = some p) : e = e' := by
  obtain ⟨m, hm, hphys, hin⟩ := h.pageOf he hp
  obtain ⟨n, hn, hphys', hin'⟩ := h.pageOf he' hp'
  by_cases hb : e.block = e'.block
  · -- In one block the place follows from the address.
    rw [hb, hn] at hm
    cases hm
    have hmul : e.index * HCA_PAGE_SIZE = e'.index * HCA_PAGE_SIZE := by omega
    have hindex : e.index = e'.index :=
      Nat.eq_of_mul_eq_mul_right (show 0 < HCA_PAGE_SIZE by decide) hmul
    calc e = ⟨e.block, e.index⟩ := rfl
      _ = ⟨e'.block, e'.index⟩ := by rw [hb, hindex]
  · -- Different blocks have no address in common.
    have hbytes : 0 < HCA_PAGE_SIZE := by decide
    rcases h.apart _ he.1 _ he'.1 hb m n hm hn with hle | hle
    · have hge : (regionOf s n).phys ≤ p := by rw [hphys']; exact Nat.le_add_right _ _
      omega
    · have hge : (regionOf s m).phys ≤ p := by rw [hphys]; exact Nat.le_add_right _ _
      omega

/-- Blocks that stay as they are stay cut into pages. -/
theorem Cut.of_subset (h : Cut s pre l) (hrep : Rep s' pre' l') (hsub : l' ⊆ l)
    (hbs : s'.pool.block_size = s.pool.block_size) (hdma : ∀ b ∈ l', dmaAt s' b = dmaAt s b)
    (hdata : ∀ e', e'.block ∈ l' → s'.heap.dataAt e' = s.heap.dataAt e') : Cut s' pre' l' where
  toRep := hrep
  block_size_pos := hbs ▸ h.block_size_pos
  split b hb m hm i hi := by
    rw [hdata ⟨b, i⟩ hb]
    exact h.split b (hsub hb) m (hdma b hb ▸ hm) i (hbs ▸ hi)
  fits b hb m hm := by
    rw [hbs]
    exact h.fits b (hsub hb) m (hdma b hb ▸ hm)
  apart b hb c hc hne m n hm hn := by
    unfold regionOf
    rw [hbs]
    exact h.apart b (hsub hb) c (hsub hc) hne m n (hdma b hb ▸ hm) (hdma c hc ▸ hn)

/-- The index has no part in how blocks are cut into pages. -/
theorem Cut.withIndex (h : Cut s pre l) (index : ℕ → Option ElementPtr) :
    Cut (withIndex s index) pre l :=
  ⟨Rep.withIndex h.toRep index, h.block_size_pos, h.split, h.fits, h.apart⟩

/-! ## Taking a page -/

/-- The page `e` with the address `p` is taken in the step from `s` to `s'`. -/
structure Claimed (s s' : State) (l l' : List BlockPtr) (p : ℕ) (e : ElementPtr) : Prop where
  sync : InSync s' none l'
  unindexed : s.pool.data.index p = none
  index : s'.pool.data.index = Function.update s.pool.data.index p (some e)
  used : ∀ e', UsedAt s' l' e' ↔ UsedAt s l e' ∨ e' = e
  phys : physAt s' e = some p
  pageOf : ∃ m, dmaAt s' e.block = some m ∧ PageOf s' m e.index p

/-- The index has the used pages again after a page was taken, if its address was not in it. -/
theorem indexed_taken (h : InSync s pre l) (ht : Taken kind s s' pre l l' e)
    (hp : physAt s' e = some p) (hnone : s.pool.data.index p = none) :
    Indexed (withIndex s' (Function.update s.pool.data.index p (some e))) l' := by
  intro q e'
  have hused : UsedAt (withIndex s' (Function.update s.pool.data.index p (some e))) l' e' ↔
      UsedAt s l e' ∨ e' = e := ht.used e'
  have hphys : physAt (withIndex s' (Function.update s.pool.data.index p (some e))) e' =
      physAt s' e' := rfl
  have hindex : (withIndex s' (Function.update s.pool.data.index p (some e))).pool.data.index =
      Function.update s.pool.data.index p (some e) := rfl
  rw [hused, hphys, hindex]
  -- The page that was taken has the address that was entered, and no other one.
  by_cases hee : e' = e
  · subst hee
    rw [hp]
    by_cases hqp : q = p
    · simp [hqp]
    · -- At no other address is the page that was not used.
      have hnot : s.pool.data.index q ≠ some e' := fun hq =>
        ht.unused ((h.indexed q e').mp hq).1
      have hpq : p ≠ q := fun heq => hqp heq.symm
      simp [hqp, hpq, hnot]
  · -- Any other page is used exactly when it was, and its address has not changed.
    have hkeep : UsedAt s l e' → physAt s' e' = physAt s e' := fun hu => physAt_taken ht hu.1
    by_cases hqp : q = p
    · subst hqp
      rw [Function.update_self]
      constructor
      · intro heq
        exact absurd (Option.some.inj heq).symm hee
      · rintro ⟨hu, hq⟩
        have hu := hu.resolve_right hee
        rw [(h.indexed q e').mpr ⟨hu, hkeep hu ▸ hq⟩] at hnone
        cases hnone
    · rw [Function.update_of_ne hqp, h.indexed]
      constructor
      · rintro ⟨hu, hq⟩
        exact ⟨.inl hu, (hkeep hu).trans hq⟩
      · rintro ⟨hu, hq⟩
        have hu := hu.resolve_right hee
        exact ⟨hu, (hkeep hu).symm.trans hq⟩

/-- The blocks are cut into pages after a page was taken. -/
theorem Cut.taken (h : Cut s pre l) (hnew : NewRegion s l)
    (hres : PA.allocPage kind s = .ok (some e) s') (ht : Taken kind s s' pre l l' e) :
    Cut s' pre l' := by
  obtain ⟨hold, hblock⟩ := allocPage_blockData h.toRep h.block_size_pos hres
  rcases ht.blocks with ⟨rfl, -⟩ | ⟨rfl, -, hfull, bd, ed, hsetup, hpages⟩
  · exact h.of_subset ht.rep (fun _ hb => hb) ht.block_size hold ht.data
  · obtain ⟨halloc, rfl⟩ := kind_setup_ok hsetup
    obtain ⟨hfits, hapart⟩ := hnew bd _ halloc
    have hbd : dmaAt s' s.heap.fresh = some bd := hblock bd _ _ hsetup hfull
    -- The DMA memory of a block is that of an old block, or the new one.
    have hcase : ∀ b ∈ l ++ [s.heap.fresh], ∀ m, dmaAt s' b = some m →
        b ∈ l ∧ dmaAt s b = some m ∨ b = s.heap.fresh ∧ m = bd := fun b hb m hm => by
      rcases List.mem_append.mp hb with hb | hb
      · exact .inl ⟨hb, (hold b hb).symm.trans hm⟩
      · obtain rfl := List.mem_singleton.mp hb
        exact .inr ⟨rfl, Option.some.inj (hm.symm.trans hbd)⟩
    refine ⟨ht.rep, ht.block_size ▸ h.block_size_pos, fun b hb m hm i hi => ?_,
      fun b hb m hm => ?_, fun b hb c hc hne m n hm hn => ?_⟩
    · rw [ht.block_size] at hi
      rcases hcase b hb m hm with ⟨hb, hm⟩ | ⟨rfl, rfl⟩
      · rw [ht.data ⟨b, i⟩ hb]
        exact h.split b hb m hm i hi
      · obtain ⟨d, hd⟩ := hpages i hi
        exact hd
    · rw [ht.block_size]
      rcases hcase b hb m hm with ⟨hb, hm⟩ | ⟨rfl, rfl⟩
      · exact h.fits b hb m hm
      · exact hfits
    · unfold regionOf
      rw [ht.block_size]
      rcases hcase b hb m hm with ⟨hb, hm⟩ | ⟨rfl, rfl⟩ <;>
        rcases hcase c hc n hn with ⟨hc, hn⟩ | ⟨rfl, rfl⟩
      · exact h.apart b hb c hc hne m n hm hn
      · exact (hapart b hb m hm).symm
      · exact hapart c hc n hn
      · exact absurd rfl hne

/-- `alloc_page` takes a page whose address was not in the index, and keeps the pool in sync, unless
the kernel refuses the memory that it requests for a block. -/
theorem InSync.allocPage (h : InSync s none l) (hlt : s.pool.size < s.pool.max)
    (hnew : NewRegion s l) :
    Ends MEM.allocPage s (fun e s' => ∃ l' p, Claimed s s' l l' p e)
      fun err s' => Refused s l err s' ∧ InSync s' none l := by
  rcases allocPage_spec kind h.toRep h.block_size_pos with
    ⟨hmax, -⟩ | ⟨-, e, s', l', hres, ht⟩ | ⟨-, what, s', hres, hrep, hpool, hheap, hfull, hset⟩
  · omega
  · have hin : InPool s' l' e := inPool_of_usedAt ((ht.used e).mpr (.inr rfl))
    obtain ⟨p, hp⟩ := exists_physAt ht.rep hin
    have hcut : Cut s' none l' := h.toCut.taken hnew hres ht
    -- A used page with the same address would be the page that was taken.
    have hnone : s.pool.data.index p = none := by
      by_contra hsome
      obtain ⟨e', he'⟩ := Option.ne_none_iff_exists'.mp hsome
      obtain ⟨hu, hp'⟩ := (h.indexed p e').mp he'
      have hin' : InPool s' l' e' := inPool_of_usedAt ((ht.used e').mpr (.inl hu))
      have hphys' : physAt s' e' = some p := by
        rw [physAt_taken ht hu.1]
        exact hp'
      exact ht.unused (hcut.distinct hin' hin hphys' hp ▸ hu)
    have hindexed := indexed_taken h ht hp hnone
    have hok := allocPage_of_taken hres hp
    rw [ht.pool_data] at hok
    exact ends_of_ok hok ⟨l', p, {
      sync := ⟨hcut.withIndex _, hindexed⟩
      unindexed := hnone
      index := rfl
      used := ht.used
      phys := hp
      pageOf := (hcut.withIndex _).pageOf hin hp }⟩
  · have herror : MEM.allocPage s = .error (.thrown what) s' := bind_of_error hres
    have hblock : ∀ b ∈ l, s'.heap.block b = s.heap.block b := fun b hb =>
      hheap b (h.lt_fresh hb)
    have hcut : Cut s' none l := by
      refine h.toCut.of_subset hrep (fun _ hb => hb) (by rw [hpool]) (fun b hb => ?_)
        fun e' he' => ?_
      · rw [dmaAt, Heap.blockData, hblock b hb, dmaAt, Heap.blockData]
      · rw [Heap.dataAt, Heap.elem, hblock _ he', Heap.dataAt, Heap.elem]
    refine ends_of_error herror ⟨⟨hfull, refused_of_setup hset, hpool⟩, hcut, fun p e => ?_⟩
    rw [hpool, h.indexed]
    unfold UsedAt physAt Heap.dataAt Heap.elem
    rw [hpool]
    constructor
    · rintro ⟨⟨hb, hi, hu⟩, hp⟩
      rw [hblock _ hb]
      exact ⟨⟨hb, hi, hu⟩, hp⟩
    · rintro ⟨⟨hb, hi, hu⟩, hp⟩
      rw [hblock _ hb] at hu hp
      exact ⟨⟨hb, hi, hu⟩, hp⟩

/-! ## Giving a page back -/

/-- The page `e` with the address `p` is given back in the step from `s` to `s'`. -/
structure Returned (s s' : State) (l l' : List BlockPtr) (p : ℕ) (e : ElementPtr) : Prop where
  index : s'.pool.data.index = Function.update s.pool.data.index p none
  used : ∀ e', UsedAt s' l' e' ↔ UsedAt s l e' ∧ e' ≠ e
  data : ∀ e', e'.block ∈ l' → s'.heap.dataAt e' = s.heap.dataAt e'
  indexed : Indexed s' l'
  /-- The other blocks stay, and the block of the page stays exactly when another page of it is
  used. -/
  others : ∀ b, b ≠ e.block → (b ∈ l' ↔ b ∈ l)
  own : e.block ∈ l' ↔ ∃ i, i ≠ e.index ∧ UsedAt s l ⟨e.block, i⟩

/-- What it means for the index that an element is given back. -/
theorem InSync.returned (h : InSync s pre l) (hindex : s.pool.data.index p = some e)
    (hg : Given (withIndex s (Function.update s.pool.data.index p none)) s' l l' e)
    (hothers : ∀ b, b ≠ e.block → (b ∈ l' ↔ b ∈ l)) : Returned s s' l l' p e := by
  have hused : ∀ e', UsedAt s' l' e' ↔ UsedAt s l e' ∧ e' ≠ e := hg.used
  have hdata : ∀ e', e'.block ∈ l' → s'.heap.dataAt e' = s.heap.dataAt e' := hg.data
  have hnew : s'.pool.data.index = Function.update s.pool.data.index p none :=
    congrArg PD.index hg.pool_data
  refine ⟨hnew, hused, hdata, fun q e' => ?_, hothers, ?_⟩
  · have hkeep : UsedAt s' l' e' → physAt s' e' = physAt s e' := fun hu => by
      rw [physAt, hdata e' hu.1, physAt]
    rw [hnew]
    by_cases hqp : q = p
    · -- The page at this address is the one given back.
      subst hqp
      rw [Function.update_self]
      constructor
      · intro heq
        cases heq
      · rintro ⟨hu, hq⟩
        obtain ⟨hold, hne⟩ := (hused e').mp hu
        have hq' := (h.indexed q e').mpr ⟨hold, (hkeep hu).symm.trans hq⟩
        exact absurd (Option.some.inj (hq'.symm.trans hindex)) hne
    · -- At another address there is the page that was there before.
      rw [Function.update_of_ne hqp, h.indexed]
      constructor
      · rintro ⟨hu, hq⟩
        have hne : e' ≠ e := fun heq => by
          rw [heq, ((h.indexed p e).mp hindex).2] at hq
          exact hqp (Option.some.inj hq).symm
        have hu' := (hused e').mpr ⟨hu, hne⟩
        exact ⟨hu', (hkeep hu').trans hq⟩
      · rintro ⟨hu, hq⟩
        exact ⟨((hused e').mp hu).1, (hkeep hu).symm.trans hq⟩
  · constructor
    · -- The block of the page stays exactly when it has another used page.
      intro hmem
      obtain ⟨i, hi⟩ := (hg.kept e.block hmem).resolve_left fun hne => hne rfl
      obtain ⟨hu, hne⟩ := (hused _).mp hi
      exact ⟨i, fun heq => hne (by rw [heq]), hu⟩
    · rintro ⟨i, hne, hu⟩
      exact ((hused ⟨e.block, i⟩).mpr ⟨hu, fun heq => hne (congrArg ElementPtr.index heq)⟩).1

/-- The block of the page stays with its DMA memory, or it is destroyed and its DMA memory given
back. -/
structure GaveBack (s s' : State) (l' : List BlockPtr) (e : ElementPtr) : Prop where
  kept : e.block ∈ l' → s'.world = s.world
  dropped : e.block ∉ l' → s'.heap.block e.block = none ∧
    ∃ m, dmaAt s e.block = some m ∧ freeDmaMem (blockBytes s.pool) m s.world = .ok () s'.world

/-- The kernel refuses to unmap the DMA memory of the block of the page, and the driver throws. The
block is not in the list any more. -/
def NotUnmapped (s : State) (l' : List BlockPtr) (e : ElementPtr) (err : Stop) : Prop :=
  e.block ∉ l' ∧ (∃ what, err = .thrown what) ∧ ∃ m d, dmaAt s e.block = some m ∧
    freeDmaMem (blockBytes s.pool) m s.world = .error err d

/-- The blocks of a list that are left when one of them is taken out. -/
theorem mem_of_split {l₁ l₂ : List BlockPtr} (hne : b ≠ e.block) :
    b ∈ l₁ ++ l₂ ↔ b ∈ l₁ ++ e.block :: l₂ := by
  rw [List.mem_append, List.mem_append, List.mem_cons]
  tauto

/-- The DMA memory of the blocks that are left when a block is taken off the list stays. -/
theorem dmaAt_dropped {s₀ : State} {blk : Block DmaMem ED} {l₁ l₂ : List BlockPtr}
    (hblk : s₀.heap.block e.block = some blk)
    (hd : Dropped (s₀.give e blk) s' pre e.block l₁ l₂) (hne : b ≠ e.block) :
    dmaAt s' b = dmaAt s₀ b := by
  rw [dmaAt, Heap.blockData_of_body (hd.body b hne)]
  exact blockData_put hblk (blk.give e.index) rfl b

/-- `free_page` at an address in the index takes the address out, gives its page back, and drops the
block of the page exactly when no other page of it is used. -/
theorem InSync.freePage (h : InSync s none l) (hindex : s.pool.data.index p = some e) :
    Ends (MEM.freePage p) s
      (fun _ s' => ∃ pre' l', InSync s' pre' l' ∧ Returned s s' l l' p e ∧ GaveBack s s' l' e)
      fun err s' => ∃ l', Returned s s' l l' p e ∧ NotUnmapped s l' e err := by
  obtain ⟨hused, hp⟩ := (h.indexed p e).mp hindex
  refine Ends.congr (freePage_of_index hindex) ?_
  generalize hs₁ : withIndex s (Function.update s.pool.data.index p none) = s₁
  have hrep : Rep s₁ none l := hs₁ ▸ Rep.withIndex h.toRep _
  have hused₁ : UsedAt s₁ l e := hs₁ ▸ hused
  obtain ⟨blk, hblk⟩ := hrep.exist e.block hused₁.1
  have hcut : Cut s₁ none l := hs₁ ▸ h.toCut.withIndex _
  -- However the block fares, the index and the used pages change in this one way.
  have hreturned : ∀ {s' l'}, Given s₁ s' l l' e → (∀ b, b ≠ e.block → (b ∈ l' ↔ b ∈ l)) →
      Returned s s' l l' p e := fun hg hothers => h.returned hindex (hs₁ ▸ hg) hothers
  -- The memory of the block, which is what is unmapped if the block goes.
  have hm : dmaAt s e.block = some blk.data := by
    subst hs₁
    exact Heap.blockData_of_block hblk
  have hworld : s₁.world = s.world := by rw [← hs₁]; rfl
  have hbytes : ∀ q : Pool PD, q.Same (s₁.give e blk).pool → blockBytes q = blockBytes s.pool :=
    fun q hq => by rw [blockBytes, hq.block_size, ← hs₁]; rfl
  have hout := freePage_cases (k := kind) hrep hused₁ hblk
  cases hres : PA.freePage kind e s₁ with
  | ok u s' =>
    rw [hres] at hout
    refine ends_of_ok hres ?_
    -- The block stays, or it is dropped and its memory is unmapped.
    cases hout with
    | keep hcount =>
      obtain ⟨hg, hrep'⟩ := given_keep hrep hused₁ hblk hcount
      have hr := hreturned hg fun _ _ => Iff.rfl
      have hdma : ∀ b ∈ l, dmaAt (s₁.give e blk) b = dmaAt s₁ b := fun b _ =>
        blockData_put hblk (blk.give e.index) rfl b
      exact ⟨none, l, ⟨hcut.of_subset hrep' (fun _ hb => hb) hg.block_size hdma hg.data,
        hr.indexed⟩, hr, fun _ => hworld, fun hnot => absurd hused₁.1 hnot⟩
    | drop hcount l₁ l₂ s₁ q hl hpre hq hrel hgone hdrop hrep' =>
      subst hl
      have hg := given_drop hrep hused₁ hblk hcount hdrop
      have hr := hreturned hg fun b hne => mem_of_split hne
      have hne : ∀ b ∈ l₁ ++ l₂, b ≠ e.block := fun b hb => hrep.toLinked.ne_of_mem hb
      refine ⟨_, _, ⟨hcut.of_subset hrep' hg.sub hg.block_size
        (fun b hb => dmaAt_dropped hblk hdrop (hne b hb)) hg.data, hr.indexed⟩, hr,
        fun hmem => absurd rfl (hne _ hmem), fun _ => ⟨hgone, blk.data, hm, ?_⟩⟩
      rw [← hbytes q hq, ← hworld]
      exact hrel
  | error err s' =>
    rw [hres] at hout
    refine ends_of_error hres ?_
    cases hout with
    | stale hcount q l₂ s₁ hpre hl => cases hpre
    | throws hcount l₁ l₂ s₁ what q w hl hpre hq hrel hdrop hrep' =>
      subst hl
      have hg := given_drop hrep hused₁ hblk hcount hdrop
      refine ⟨_, hreturned hg fun b hne => mem_of_split hne,
        fun hmem => hrep.toLinked.ne_of_mem hmem rfl, ⟨what, rfl⟩, blk.data, w, hm, ?_⟩
      rw [← hbytes q hq, ← hworld]
      exact hrel

/-- A pool of memory pages with one block of two pages, of which the first one is used. -/
def onePageUsed : State where
  world := { services := roomy, requests := 1, mapped := [⟨0, 2 ^ 21⟩] }
  pool := {
    max := 4, size := 1, block_size := 2, block_count := 1
    data := ⟨fun p => if p = 0 then some ⟨0, 0⟩ else none⟩, start := some 0, «end» := some 0 }
  heap := {
    block := fun b =>
      if b = 0 then some ⟨1, none, none, ⟨0, 0⟩, fun i => ⟨i = 0, page ⟨0, 0⟩ i, 0⟩⟩ else none
    fresh := 1
    uninit := fun _ => ⟨0, none, none, ⟨0, 0⟩, fun _ => ⟨false, ⟨0, 0⟩, 0⟩⟩ }

/-- This pool is well formed. -/
theorem onePageUsed_rep : Rep onePageUsed none [0] where
  seg := ⟨rfl, rfl, rfl⟩
  last b hb := by cases hb; rfl
  block_count := rfl
  exist b hb := by
    obtain rfl := List.mem_singleton.mp hb
    exact ⟨_, rfl⟩
  unborn b hb := if_neg (Nat.ne_of_gt hb)
  pre_nil _ := rfl
  ok b hb n d a hbody := by
    obtain rfl := List.mem_singleton.mp hb
    cases hbody
    exact ⟨by decide, fun _ _ => rfl⟩
  size_eq := rfl
  size_le := by decide
  stale q hq := by cases hq

/-- It is in sync. -/
theorem onePageUsed_inSync : InSync onePageUsed none [0] where
  toRep := onePageUsed_rep
  block_size_pos := by decide
  split b hb m hm i _ := by
    obtain rfl := List.mem_singleton.mp hb
    cases hm
    rfl
  fits b hb m hm := by
    obtain rfl := List.mem_singleton.mp hb
    cases hm
    decide
  apart b hb c hc hne := by
    obtain rfl := List.mem_singleton.mp hb
    exact absurd (List.mem_singleton.mp hc).symm hne
  indexed p e := by
    have hindex : onePageUsed.pool.data.index p = if p = 0 then some ⟨0, 0⟩ else none := rfl
    rw [hindex]
    constructor
    · intro he
      obtain ⟨rfl, he⟩ := Option.ite_none_right_eq_some.mp he
      cases he
      exact ⟨⟨List.mem_singleton_self 0, by decide, _, rfl, rfl⟩, rfl⟩
    · rintro ⟨⟨hb, hi, blk, hblk, hu⟩, hp⟩
      obtain ⟨b, i⟩ := e
      obtain rfl : b = 0 := List.mem_singleton.mp hb
      cases hblk
      obtain rfl : i = 0 := of_decide_eq_true hu
      cases hp
      rfl

end L4Rdma.MEM
