import L4Rdma.Pool.Run

/-!
# Memory pages

The pages of the memory page pool are cut out of regions that the kernel has mapped for the device.
Pages of different regions have different addresses because the kernel maps no two regions onto one
another (`L4Re.Maps`). `Pages` adds to a well-formed pool that its pages are in mapped regions and
have different addresses. `Grabbed` says what a number of allocations do to the pages, `allocPage`
adding one page to those taken so far.
-/

namespace L4Rdma.MEM

open Lib PA

variable {s s' s₀ : State} {pre : Option BlockPtr} {l l' l₀ : List BlockPtr} {e e' : ElementPtr}
  {es : List ElementPtr} {ps : List ℕ} {p q : ℕ} {r : L4Re} {d d' : Dma} {m : DmaMem}

/-! ## What the kernel promises -/

/-- The kernel maps memory to a region of 64-bit addresses in which nothing else is mapped. -/
structure L4Re.Maps (r : L4Re) : Prop where
  fits : ∀ n mapped size phys, r.map n mapped size = some phys → phys + size ≤ 2 ^ 64
  apart : ∀ n mapped size phys, r.map n mapped size = some phys → ∀ g ∈ mapped,
    phys + size ≤ g.phys ∨ g.phys + g.size ≤ phys

/-- How a call on a pool with the blocks `l` can come to stop in `s'`: all blocks were full, and the kernel
refused the memory that this call requested for another one. The pool stays as it was. -/
structure Refused (s : State) (l : List BlockPtr) (err : Stop) (s' : State) : Prop where
  full : ∀ b ∈ l, Full s b
  refused : allocDmaMem (blockBytes s.pool) s.world = .error err s'.world
  pool : s'.pool = s.pool

/-- A whole number of superpages is not less than the size asked for. -/
theorem le_superpages {size : ℕ} (hsize : size ≤ 2 ^ 62) (hshift : r.superpageShift ≤ 62) :
    size ≤ r.superpages size := by
  have hpos : 0 < 2 ^ r.superpageShift := Nat.two_pow_pos _
  have hle : 2 ^ r.superpageShift ≤ 2 ^ 62 := Nat.pow_le_pow_right (by decide) hshift
  unfold L4Re.superpages
  generalize 2 ^ r.superpageShift = superpage at hpos hle
  simp only
  split_ifs
  · have hdiv := Nat.div_add_mod size superpage
    have hmod := Nat.mod_lt size hpos
    have hmul : (size / superpage + 1) * superpage = superpage * (size / superpage) + superpage := by
      rw [Nat.add_mul, Nat.one_mul, Nat.mul_comm]
    rw [hmul, Nat.mod_eq_of_lt (by omega)]
    omega
  · exact Nat.le_refl size

/-- It is the size asked for when that is a whole number of superpages already. -/
theorem superpages_eq_iff {size : ℕ} (hsize : size ≤ 2 ^ 62) (hshift : r.superpageShift ≤ 62) :
    r.superpages size = size ↔ 2 ^ r.superpageShift ∣ size := by
  have hpos : 0 < 2 ^ r.superpageShift := Nat.two_pow_pos _
  have hle : 2 ^ r.superpageShift ≤ 2 ^ 62 := Nat.pow_le_pow_right (by decide) hshift
  unfold L4Re.superpages
  generalize 2 ^ r.superpageShift = superpage at hpos hle
  simp only
  rw [Nat.dvd_iff_mod_eq_zero]
  split_ifs with hrest
  · have hdiv := Nat.div_add_mod size superpage
    have hmod := Nat.mod_lt size hpos
    have hmul : (size / superpage + 1) * superpage = superpage * (size / superpage) + superpage := by
      rw [Nat.add_mul, Nat.one_mul, Nat.mul_comm]
    rw [hmul, Nat.mod_eq_of_lt (by omega)]
    omega
  · exact ⟨fun _ => Decidable.not_not.mp hrest, fun _ => rfl⟩

/-- Memory that has been allocated is in a new region. -/
theorem allocDmaMem_ok {size : ℕ} (h : allocDmaMem size d = .ok m d') :
    d.services.map d.requests d.mapped (d.services.superpages size) = some m.phys ∧
      d'.services = d.services ∧ d'.mapped = ⟨m.phys, d.services.superpages size⟩ :: d.mapped := by
  unfold allocDmaMem at h
  rw [get_bind, modify_bind] at h
  simp only at h
  cases hattach : d.services.attach d.requests (d.services.superpages size) with
  | none =>
    rw [hattach] at h
    split_ifs at h <;> cases h
  | some virt =>
    cases hmap : d.services.map d.requests d.mapped (d.services.superpages size) with
    | none =>
      rw [hattach, hmap] at h
      split_ifs at h <;> cases h
    | some phys =>
      rw [hattach, hmap] at h
      split_ifs at h <;> cases h
      exact ⟨rfl, rfl, rfl⟩

/-- However it ends, it has made one request. -/
theorem ends_allocDmaMem_requests (size : ℕ) (d : Dma) :
    Ends (allocDmaMem size) d (fun _ d' => d'.requests = d.requests + 1)
      fun _ d' => d'.requests = d.requests + 1 := by
  unfold allocDmaMem
  refine Ends.bind_of_ok (get_apply d) (Ends.bind_of_ok (modify_apply _ d) ?_)
  suffices hleaves : Leaves Dma.requests _ from
    (hleaves { d with requests := d.requests + 1 }).mono (fun _ _ h => h) fun _ _ h => h
  -- After that the requests stay as they are.
  have hthrow : ∀ (what : Stop) (g : Unit → Exec Dma DmaMem), Leaves Dma.requests (throw what >>= g) :=
    fun what g d => ends_of_error (throw_bind what g d) rfl
  refine leaves_ite (hthrow _ _) (leaves_ite (hthrow _ _) ?_)
  cases d.services.attach d.requests (d.services.superpages size) with
  | none => exact leaves_throw _
  | some virt =>
    cases d.services.map d.requests d.mapped (d.services.superpages size) with
    | none => exact leaves_throw _
    | some phys => exact Leaves.bind (fun d => ends_of_ok (modify_apply _ d) rfl) fun _ => leaves_pure _

/-! ## Pages of a pool -/

/-- The address of the page at a place. -/
def physAt (s : State) (e : ElementPtr) : Option ℕ := (s.heap.dataAt e).map ED.phys

/-- The place of a page of the pool. -/
def InPool (s : State) (l : List BlockPtr) (e : ElementPtr) : Prop :=
  e.block ∈ l ∧ e.index < s.pool.block_size

/-- A well-formed pool whose pages are in mapped regions and have different addresses. -/
structure Pages (s : State) (pre : Option BlockPtr) (l : List BlockPtr) : Prop
    extends Rep s pre l where
  block_size_pos : 0 < s.pool.block_size
  bytes_le : HCA_PAGE_SIZE * s.pool.block_size ≤ 2 ^ 62
  shift_le : s.world.services.superpageShift ≤ 62
  fits : ∀ g ∈ s.world.mapped, g.phys + g.size ≤ 2 ^ 64
  mapped : ∀ e p, InPool s l e → physAt s e = some p →
    ∃ g ∈ s.world.mapped, g.phys ≤ p ∧ p < g.phys + g.size
  distinct : ∀ e e' p, InPool s l e → InPool s l e' → physAt s e = some p →
    physAt s e' = some p → e = e'

/-- A used page is one of the pool. -/
theorem inPool_of_usedAt (h : UsedAt s l e) : InPool s l e := ⟨h.1, h.2.1⟩

/-- Every page of a pool has an address. -/
theorem exists_physAt (h : Rep s pre l) (he : InPool s l e) : ∃ p, physAt s e = some p := by
  obtain ⟨blk, hblk⟩ := h.exist e.block he.1
  refine ⟨(blk.start e.index).data.phys, ?_⟩
  rw [physAt, Heap.dataAt, Heap.elem_of_block hblk]
  rfl

/-- The address of a page of a pool is one of 64 bits. -/
theorem Pages.phys_lt (h : Pages s pre l) (he : InPool s l e) (hp : physAt s e = some p) :
    p < 2 ^ 64 := by
  obtain ⟨g, hg, -, hlt⟩ := h.mapped e p he hp
  have hfits := h.fits g hg
  omega

/-- The element that has an address. -/
theorem exists_block_of_physAt (hp : physAt s e = some p) :
    ∃ blk, s.heap.block e.block = some blk ∧ (blk.start e.index).data.phys = p := by
  cases hblk : s.heap.block e.block with
  | none =>
    rw [physAt, Heap.dataAt, Heap.elem, hblk] at hp
    cases hp
  | some blk =>
    rw [physAt, Heap.dataAt, Heap.elem_of_block hblk] at hp
    exact ⟨blk, rfl, Option.some.inj hp⟩

/-- The content that `alloc_block` makes for a block. -/
theorem kind_setup_ok {pool : Pool PD} {bd : DmaMem} {ed : ℕ → ED → ED}
    (h : kind.setup pool d = .ok (bd, ed) d') :
    allocDmaMem (blockBytes pool) d = .ok bd d' ∧ ed = fun i _ => page bd i := by
  obtain ⟨m, d₁, halloc, hret⟩ := bind_eq_ok_iff.mp h
  cases hret
  exact ⟨halloc, rfl⟩

/-- The address of a page of a new block. -/
theorem page_phys {size n i : ℕ} (hfits : m.phys + size ≤ 2 ^ 64) (hsize : HCA_PAGE_SIZE * n ≤ size)
    (hi : i < n) : (page m i).phys = m.phys + i * HCA_PAGE_SIZE ∧
      m.phys + i * HCA_PAGE_SIZE < m.phys + size := by
  have hlt : i * HCA_PAGE_SIZE < HCA_PAGE_SIZE * n := by
    rw [Nat.mul_comm]
    exact Nat.mul_lt_mul_of_pos_left hi (by decide)
  refine ⟨Nat.mod_eq_of_lt ?_, ?_⟩
  all_goals omega

/-- Taking a page leaves the addresses of the pages that there are. -/
theorem physAt_taken (ht : Taken kind s s' pre l l' e) (he' : e'.block ∈ l) :
    physAt s' e' = physAt s e' := by
  rw [physAt, ht.data e' he', physAt]

/-- The pages that there are keep their place and their address. -/
theorem Pages.taken_old (h : Pages s pre l) (ht : Taken kind s s' pre l l e)
    (hworld : s'.world = s.world) : Pages s' pre l where
  toRep := ht.rep
  block_size_pos := ht.block_size ▸ h.block_size_pos
  bytes_le := ht.block_size ▸ h.bytes_le
  shift_le := hworld ▸ h.shift_le
  fits := hworld ▸ h.fits
  mapped e' p he' hp := by
    rw [physAt_taken ht he'.1] at hp
    rw [hworld]
    exact h.mapped e' p ⟨he'.1, ht.block_size ▸ he'.2⟩ hp
  distinct e₁ e₂ p h₁ h₂ hp₁ hp₂ := by
    rw [physAt_taken ht h₁.1] at hp₁
    rw [physAt_taken ht h₂.1] at hp₂
    exact h.distinct e₁ e₂ p ⟨h₁.1, ht.block_size ▸ h₁.2⟩ ⟨h₂.1, ht.block_size ▸ h₂.2⟩ hp₁ hp₂

/-- The memory of a new block is large enough for its pages. -/
theorem Pages.block_fits (h : Pages s pre l) :
    HCA_PAGE_SIZE * s.pool.block_size ≤ s.world.services.superpages (blockBytes s.pool) := by
  have hbytes : blockBytes s.pool = HCA_PAGE_SIZE * s.pool.block_size :=
    Nat.mod_eq_of_lt (Nat.lt_of_le_of_lt h.bytes_le (by decide))
  exact hbytes ▸ le_superpages (hbytes ▸ h.bytes_le) h.shift_le

/-- The pages of a new block follow one another in a region of its own. -/
theorem Pages.taken_new (h : Pages s pre l) (hmaps : s.world.services.Maps)
    (ht : Taken kind s s' pre l (l ++ [s.heap.fresh]) e) {bd : DmaMem}
    (halloc : allocDmaMem (blockBytes s.pool) s.world = .ok bd s'.world)
    (hnew : ∀ i, i < s.pool.block_size → s'.heap.dataAt ⟨s.heap.fresh, i⟩ = some (page bd i)) :
    Pages s' pre (l ++ [s.heap.fresh]) := by
  obtain ⟨hmap, hservices, hmapped⟩ := allocDmaMem_ok halloc
  have hfits := hmaps.fits _ _ _ _ hmap
  have hphys : ∀ i, i < s.pool.block_size → ∀ p, physAt s' ⟨s.heap.fresh, i⟩ = some p →
      p = bd.phys + i * HCA_PAGE_SIZE ∧
        p < bd.phys + s.world.services.superpages (blockBytes s.pool) := fun i hi p hp => by
    obtain ⟨heq, hlt⟩ := page_phys hfits h.block_fits hi
    rw [physAt, hnew i hi, Option.map_some, heq] at hp
    cases hp
    exact ⟨rfl, hlt⟩
  -- A page is an old one, or it is in the new block.
  have hcase : ∀ e', InPool s' (l ++ [s.heap.fresh]) e' →
      InPool s l e' ∨ e' = ⟨s.heap.fresh, e'.index⟩ ∧ e'.index < s.pool.block_size := by
    rintro ⟨b, i⟩ ⟨hb, hi⟩
    rw [ht.block_size] at hi
    rcases List.mem_append.mp hb with hb | hb
    · exact .inl ⟨hb, hi⟩
    · obtain rfl : b = s.heap.fresh := List.mem_singleton.mp hb
      exact .inr ⟨rfl, hi⟩
  -- The kernel has mapped nothing else to the new region, so old pages are not there.
  have hapart : ∀ e₁ e₂ p, InPool s l e₁ → e₂ = ⟨s.heap.fresh, e₂.index⟩ →
      e₂.index < s.pool.block_size → physAt s' e₁ = some p → physAt s' e₂ = some p → False := by
    intro e₁ e₂ p h₁ h₂ hi hp₁ hp₂
    rw [physAt_taken ht h₁.1] at hp₁
    rw [h₂] at hp₂
    obtain ⟨g, hg, hge, hlt⟩ := h.mapped e₁ p h₁ hp₁
    obtain ⟨hp, hlt'⟩ := hphys _ hi p hp₂
    have happ := hmaps.apart _ _ _ _ hmap g hg
    omega
  refine ⟨ht.rep, ht.block_size ▸ h.block_size_pos, ht.block_size ▸ h.bytes_le,
    hservices ▸ h.shift_le, fun g hg => ?_, fun e' p he' hp => ?_, fun e₁ e₂ p h₁ h₂ hp₁ hp₂ => ?_⟩
  · rw [hmapped] at hg
    rcases List.mem_cons.mp hg with rfl | hg
    · exact hfits
    · exact h.fits g hg
  · rw [hmapped]
    rcases hcase e' he' with hin | ⟨he, hi⟩
    · rw [physAt_taken ht hin.1] at hp
      obtain ⟨g, hg, hin⟩ := h.mapped e' p hin hp
      exact ⟨g, List.mem_cons_of_mem _ hg, hin⟩
    · rw [he] at hp
      obtain ⟨hp, hlt⟩ := hphys _ hi p hp
      refine ⟨_, List.mem_cons_self, ?_, hlt⟩
      show bd.phys ≤ p
      omega
  · rcases hcase e₁ h₁ with hin₁ | ⟨he₁, hi₁⟩ <;> rcases hcase e₂ h₂ with hin₂ | ⟨he₂, hi₂⟩
    · rw [physAt_taken ht hin₁.1] at hp₁
      rw [physAt_taken ht hin₂.1] at hp₂
      exact h.distinct e₁ e₂ p hin₁ hin₂ hp₁ hp₂
    · exact absurd (hapart e₁ e₂ p hin₁ he₂ hi₂ hp₁ hp₂) id
    · exact absurd (hapart e₂ e₁ p hin₂ he₁ hi₁ hp₂ hp₁) id
    · -- Two pages of the new block are at different offsets.
      rw [he₁] at hp₁
      rw [he₂] at hp₂
      have hp₁' := (hphys _ hi₁ p hp₁).1
      have hp₂' := (hphys _ hi₂ p hp₂).1
      have hindex : e₁.index = e₂.index :=
        Nat.eq_of_mul_eq_mul_right (show 0 < HCA_PAGE_SIZE by decide) (by omega)
      rw [he₁, he₂, hindex]

/-- Taking a page keeps the pages in mapped regions, with different addresses. -/
theorem Pages.taken (h : Pages s pre l) (hmaps : s.world.services.Maps)
    (ht : Taken kind s s' pre l l' e) :
    Pages s' pre l' ∧ s'.world.services = s.world.services := by
  rcases ht.blocks with ⟨rfl, hworld⟩ | ⟨rfl, -, -, bd, ed, hsetup, hnew⟩
  · exact ⟨h.taken_old ht hworld, by rw [hworld]⟩
  · obtain ⟨halloc, rfl⟩ := kind_setup_ok hsetup
    have hpages : ∀ i, i < s.pool.block_size →
        s'.heap.dataAt ⟨s.heap.fresh, i⟩ = some (page bd i) := fun i hi => by
      obtain ⟨_, hdata⟩ := hnew i hi
      exact hdata
    exact ⟨h.taken_new hmaps ht halloc hpages, (allocDmaMem_ok halloc).2.1⟩

/-- Taking a page unmaps nothing, and makes one request for each block that is new. -/
theorem taken_world (ht : Taken kind s s' pre l l' e) : s.world.mapped <:+ s'.world.mapped ∧
    s'.world.requests + l.length = s.world.requests + l'.length := by
  rcases ht.blocks with ⟨rfl, hworld⟩ | ⟨rfl, -, -, bd, ed, hsetup, -⟩
  · rw [hworld]
    exact ⟨List.suffix_rfl, rfl⟩
  · obtain ⟨halloc, -⟩ := kind_setup_ok hsetup
    obtain ⟨-, -, hmapped⟩ := allocDmaMem_ok halloc
    have hrequests := (ends_allocDmaMem_requests _ _).1 _ _ halloc
    rw [hmapped, hrequests, List.length_append, List.length_singleton]
    exact ⟨List.suffix_cons _ _, by omega⟩

/-! ## Taking pages -/

/-- The pool with another index. -/
def withIndex (s : State) (index : ℕ → Option ElementPtr) : State :=
  { s with pool := { s.pool with data := ⟨index⟩ } }

/-- The index has no part in whether a pool is well formed. -/
theorem Rep.withIndex (h : Rep s pre l) (index : ℕ → Option ElementPtr) :
    Rep (withIndex s index) pre l :=
  ⟨⟨h.seg, h.last, h.block_count, h.exist, h.unborn, h.pre_nil⟩, h.ok, h.size_eq, h.size_le,
    h.stale⟩

/-- The pages do not depend on the index. -/
theorem Pages.withIndex (h : Pages s pre l) (index : ℕ → Option ElementPtr) :
    Pages (withIndex s index) pre l :=
  ⟨Rep.withIndex h.toRep index, h.block_size_pos, h.bytes_le, h.shift_le, h.fits, h.mapped,
    h.distinct⟩

/-- The pages `es`, with the addresses `ps`, have been taken between `s₀` and `s`. -/
structure Grabbed (s₀ s : State) (l₀ l : List BlockPtr) (es : List ElementPtr) (ps : List ℕ) :
    Prop where
  nodup : es.Nodup
  unused : ∀ e ∈ es, ¬ UsedAt s₀ l₀ e
  used : ∀ e, UsedAt s l e ↔ UsedAt s₀ l₀ e ∨ e ∈ es
  data : ∀ e, e.block ∈ l₀ → s.heap.dataAt e = s₀.heap.dataAt e
  sub : l₀ ⊆ l
  phys : es.map (physAt s) = ps.map some
  indexed : ∀ e ∈ es, ∀ p, physAt s e = some p → s.pool.data.index p = some e
  index : ∀ p, p ∉ ps → s.pool.data.index p = s₀.pool.data.index p
  size : s.pool.size = s₀.pool.size + es.length
  max : s.pool.max = s₀.pool.max
  block_size : s.pool.block_size = s₀.pool.block_size
  services : s.world.services = s₀.world.services
  mapped : s₀.world.mapped <:+ s.world.mapped
  /-- The kernel has been asked for memory once for each block that is new. -/
  requests : s.world.requests + l₀.length = s₀.world.requests + l.length

/-- Nothing has been taken yet. -/
theorem grabbed_nil : Grabbed s s l l [] [] where
  nodup := List.nodup_nil
  unused e he := by cases he
  used e := by simp
  data _ _ := rfl
  sub := fun _ h => h
  phys := rfl
  indexed e he := by cases he
  index _ _ := rfl
  size := rfl
  max := rfl
  block_size := rfl
  services := rfl
  mapped := List.suffix_rfl
  requests := rfl

/-- As many addresses as pages have been taken. -/
theorem Grabbed.length_eq (h : Grabbed s₀ s l₀ l es ps) : ps.length = es.length := by
  have hlength := congrArg List.length h.phys
  rw [List.length_map, List.length_map] at hlength
  exact hlength.symm

/-- The address of a page that has been taken is one of the addresses. -/
theorem Grabbed.mem_iff (h : Grabbed s₀ s l₀ l es ps) :
    p ∈ ps ↔ ∃ e ∈ es, physAt s e = some p := by
  have hmem : some p ∈ es.map (physAt s) ↔ some p ∈ ps.map some := by rw [h.phys]
  simp only [List.mem_map, Option.some.injEq, exists_eq_right] at hmem
  exact hmem.symm

/-- The addresses of the pages that have been taken are different ones. -/
theorem Grabbed.nodup_phys (h : Grabbed s₀ s l₀ l es ps) (hpages : Pages s pre l) : ps.Nodup := by
  have hin : ∀ e ∈ es, InPool s l e := fun e he => inPool_of_usedAt ((h.used e).mpr (.inr he))
  have hmap : (es.map (physAt s)).Nodup := by
    refine List.Nodup.map_on (fun e he e' he' heq => ?_) h.nodup
    obtain ⟨p, hp⟩ := exists_physAt hpages.toRep (hin e he)
    exact hpages.distinct e e' p (hin e he) (hin e' he') hp (heq ▸ hp)
  rw [h.phys] at hmap
  exact List.Nodup.of_map some hmap

/-- Taking one more page, and entering it in the index. -/
theorem Grabbed.taken (h : Grabbed s₀ s l₀ l es ps) (ht : Taken kind s s' pre l l' e)
    (hpages : Pages s' pre l') (hservices : s'.world.services = s.world.services)
    (hp : physAt s' e = some p) :
    Grabbed s₀ (withIndex s' (Function.update s'.pool.data.index p (some e))) l₀ l' (es ++ [e])
      (ps ++ [p]) := by
  -- The page is none of those that have been taken, and so has another address than they have.
  have hnew : e ∉ es := fun he => ht.unused ((h.used e).mpr (.inr he))
  have hin : InPool s' l' e := inPool_of_usedAt ((ht.used e).mpr (.inr rfl))
  have hold : ∀ e' ∈ es, InPool s' l' e' ∧ physAt s' e' = physAt s e' := fun e' he' => by
    have hused := (h.used e').mpr (.inr he')
    refine ⟨inPool_of_usedAt ((ht.used e').mpr (.inl hused)), ?_⟩
    exact physAt_taken ht hused.1
  have hne : ∀ e' ∈ es, ∀ q, physAt s' e' = some q → q ≠ p := fun e' he' q hq heq =>
    hnew (hpages.distinct e' e q (hold e' he').1 hin hq (heq ▸ hp) ▸ he')
  obtain ⟨hmapped, hrequests⟩ := taken_world ht
  refine ⟨?_, ?_, fun e' => ?_, fun e' he' => ?_, ?_, ?_, ?_, ?_, ?_, ht.max.trans h.max,
    ht.block_size.trans h.block_size, hservices.trans h.services, h.mapped.trans hmapped, ?_⟩
  · exact List.nodup_append.mpr ⟨h.nodup, List.nodup_singleton _, fun a ha b hb hab => by
      obtain rfl := List.mem_singleton.mp hb
      exact hnew (hab ▸ ha)⟩
  · intro e' he'
    rcases List.mem_append.mp he' with he' | he'
    · exact h.unused e' he'
    · obtain rfl := List.mem_singleton.mp he'
      exact fun hu => ht.unused ((h.used e').mpr (.inl hu))
  · rw [List.mem_append, List.mem_singleton, ← or_assoc, ← h.used]
    exact ht.used e'
  · exact (ht.data e' (h.sub he')).trans (h.data e' he')
  · intro b hb
    rcases ht.blocks with ⟨rfl, -⟩ | ⟨rfl, -⟩
    · exact h.sub hb
    · exact List.mem_append_left _ (h.sub hb)
  · -- The addresses of the pages taken before have not changed.
    have hmap : es.map (physAt s') = ps.map some :=
      (List.map_congr_left fun e' he' => (hold e' he').2).trans h.phys
    rw [List.map_append, List.map_append]
    exact congrArg₂ _ hmap (congrArg (fun o => [o]) hp)
  · intro e' he' q hq
    rcases List.mem_append.mp he' with he' | he'
    · -- An address of an earlier page leads to that page still, since the new one is different.
      have hindex : s'.pool.data.index q = some e' := by
        rw [ht.pool_data]
        exact h.indexed e' he' q ((hold e' he').2 ▸ hq)
      exact (Function.update_of_ne (hne e' he' q hq) _ _).trans hindex
    · obtain rfl := List.mem_singleton.mp he'
      obtain rfl : q = p := Option.some.inj (hq.symm.trans hp)
      exact Function.update_self _ _ _
  · intro q hq
    rw [List.mem_append, List.mem_singleton, not_or] at hq
    refine (Function.update_of_ne hq.2 _ _).trans ?_
    rw [ht.pool_data]
    exact h.index q hq.1
  · show s'.pool.size = _
    rw [ht.size, h.size, List.length_append]
    rfl
  · have hbefore := h.requests
    show s'.world.requests + l₀.length = _
    omega

/-- `alloc_page` takes a page, and enters it in the index. -/
theorem allocPage_of_taken (hres : PA.allocPage kind s = .ok (some e) s')
    (hp : physAt s' e = some p) :
    allocPage s = .ok e (withIndex s' (Function.update s'.pool.data.index p (some e))) := by
  obtain ⟨blk, hblk, rfl⟩ := exists_block_of_physAt hp
  unfold allocPage
  refine (bind_of_ok hres).trans ?_
  exact bind_of_ok (deref_of_block hblk)

/-- A block cannot be had only when the kernel refuses the memory that is requested for it. -/
theorem refused_of_setup {err : Stop} {w : Dma} (hset : kind.setup s.pool s.world = .error err w) :
    allocDmaMem (blockBytes s.pool) s.world = .error err w := by
  rcases bind_eq_error_iff.mp hset with halloc | ⟨m, d, -, hret⟩
  · exact halloc
  · -- What comes after the request does not fail.
    cases hret

/-- `alloc_page` takes one more page, unless the kernel refuses memory for a block. -/
theorem Grabbed.next (h : Grabbed s₀ s l₀ l es ps) (hpages : Pages s pre l)
    (hmaps : s.world.services.Maps) (hlt : s.pool.size < s.pool.max) :
    Ends allocPage s
      (fun e s' => ∃ l' p, Pages s' pre l' ∧ Grabbed s₀ s' l₀ l' (es ++ [e]) (ps ++ [p]) ∧
        physAt s' e = some p)
      fun err s' => Refused s l err s' := by
  rcases allocPage_spec kind hpages.toRep hpages.block_size_pos with
    ⟨hmax, -⟩ | ⟨-, e, s', l', hres, ht⟩ | ⟨-, what, s', hres, -, hpool, -, hfull, hsetup⟩
  · omega
  · obtain ⟨hpages', hservices⟩ := hpages.taken hmaps ht
    have hin : InPool s' l' e := inPool_of_usedAt ((ht.used e).mpr (.inr rfl))
    obtain ⟨p, hphys⟩ := exists_physAt ht.rep hin
    exact ends_of_ok (allocPage_of_taken hres hphys)
      ⟨l', p, hpages'.withIndex _, h.taken ht hpages' hservices hphys, hphys⟩
  · have herror : allocPage s = .error (.thrown what) s' := bind_of_error hres
    exact ends_of_error herror ⟨hfull, refused_of_setup hsetup, hpool⟩

/-! ## The pool at the start -/

/-- An empty pool, on memory that is mapped. -/
theorem pages_empty (h : Empty s) (hbytes : HCA_PAGE_SIZE * s.pool.block_size ≤ 2 ^ 62)
    (hshift : s.world.services.superpageShift ≤ 62)
    (hfits : ∀ g ∈ s.world.mapped, g.phys + g.size ≤ 2 ^ 64) : Pages s none [] where
  toRep := h.rep
  block_size_pos := h.block_size
  bytes_le := hbytes
  shift_le := hshift
  fits := hfits
  mapped _ _ he := absurd he.1 List.not_mem_nil
  distinct _ _ _ he := absurd he.1 List.not_mem_nil

/-- The first address behind everything that is mapped. -/
def firstFree (mapped : List Region) : ℕ := (mapped.map fun g => g.phys + g.size).foldr max 0

/-- A kernel that maps memory behind everything that is mapped already, and refuses nothing else. -/
def roomy : L4Re where
  superpageShift := 21
  makeSharedCap _ := true
  memAlloc _ _ := true
  attach _ size := some size
  map _ mapped size :=
    if firstFree mapped + size ≤ 2 ^ 64 then some (firstFree mapped) else none
  unmap _ _ := true

/-- Everything that is mapped ends before the first free address. -/
theorem le_firstFree {mapped : List Region} {g : Region} (hg : g ∈ mapped) :
    g.phys + g.size ≤ firstFree mapped := by
  unfold firstFree
  induction mapped with
  | nil => cases hg
  | cons g' mapped ih =>
    rw [List.map_cons, List.foldr_cons]
    rcases List.mem_cons.mp hg with rfl | hg
    · exact Nat.le_max_left _ _
    · exact Nat.le_trans (ih hg) (Nat.le_max_right _ _)

/-- This kernel maps memory where nothing else is. -/
theorem roomy_maps : roomy.Maps where
  fits n mapped size phys h := by
    obtain ⟨hle, heq⟩ := Option.ite_none_right_eq_some.mp h
    cases heq
    exact hle
  apart n mapped size phys h g hg := by
    obtain ⟨-, heq⟩ := Option.ite_none_right_eq_some.mp h
    cases heq
    exact .inr (le_firstFree hg)

/-- The pool of memory pages as `main` sets it up. -/
def initPool : State where
  world := { services := roomy, requests := 0, mapped := [] }
  pool := {
    max := 65536, size := 0, block_size := 1024, block_count := 0, data := ⟨fun _ => none⟩,
    start := none, «end» := none }
  heap := {
    block := fun _ => none, fresh := 0,
    uninit := fun _ => ⟨0, none, none, ⟨0, 0⟩, fun _ => ⟨false, ⟨0, 0⟩, 0⟩⟩ }

/-- The pool that `main` sets up has no pages. -/
theorem initPool_pages : Pages initPool none [] :=
  pages_empty ⟨rfl, rfl, rfl, by norm_num [initPool], fun _ => rfl⟩
    (by norm_num [initPool, HCA_PAGE_SIZE]) (by norm_num [initPool, roomy])
    fun _ hg => absurd hg List.not_mem_nil

end L4Rdma.MEM
