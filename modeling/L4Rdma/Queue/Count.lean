import L4Rdma.Queue.Alloc

/-!
# The pages of a queue

A queue gets memory for its entries in whole pages. `alloc_queue` counts the pages in 32 bits, asks
for `HCA_PAGE_SIZE` bytes for each of them in 32 bits, and lists their addresses. The count is the
number of pages that the entries need as long as it has 32 bits (`pageCount_eq`), but the number of
bytes wraps around from `2 ^ 20` pages on, and then the list has pages that are not in the memory of
the queue. So the memory is as large as the list says exactly for fewer than `2 ^ 20` pages
(`allocatesPages_iff`).
-/

namespace L4Rdma.Q

open Lib PA

variable {Ctx : Type} {e e' : Env Ctx} {qo : ElementPtr} {size p n i k : ℕ} {m : MEM.DmaMem} {b : Buf}

/-! ## Counting -/

/-- The count is the number of pages that the entries need, cut to 32 bits. -/
theorem pageCount_eq (hp : 0 < p) : pageCount size p = (size ⌈/⌉ p) % 2 ^ 32 := by
  have hdiv : p * (size / p) + size % p = size := Nat.div_add_mod size p
  have hmod : size % p < p := Nat.mod_lt size hp
  have hceil : size ⌈/⌉ p = if size % p ≠ 0 then size / p + 1 else size / p := by
    apply eq_of_forall_ge_iff
    intro c
    rw [ceilDiv_le_iff_le_mul hp]
    split_ifs with hrest
    · rw [Nat.succ_le_iff, Nat.div_lt_iff_lt_mul hp, Nat.mul_comm c p]
      constructor
      · intro hle
        refine Nat.lt_of_le_of_ne hle fun heq => hrest ?_
        rw [heq, Nat.mul_mod_right]
      · exact Nat.le_of_lt
    · have heq : size = p * (size / p) := by omega
      constructor
      · intro hle
        exact Nat.div_le_of_le_mul hle
      · intro hle
        calc size = p * (size / p) := heq
          _ ≤ p * c := Nat.mul_le_mul_left p hle
  unfold pageCount
  rw [hceil]

/-- What `alloc_queue` computes is enough: the pages for the entries, and the bytes for the pages. -/
structure CountsPages (size p : ℕ) : Prop where
  enough : size ≤ pageCount size p * p
  least : ∀ n, size ≤ n * p → pageCount size p ≤ n
  bytes : pageCount size p * HCA_PAGE_SIZE ≤ queueBytes (pageCount size p)

/-- It is enough exactly for fewer than `2 ^ 20` pages. -/
theorem countsPages_iff (hp : 0 < p) : CountsPages size p ↔ size ⌈/⌉ p < 2 ^ 20 := by
  have hcount : pageCount size p = (size ⌈/⌉ p) % 2 ^ 32 := pageCount_eq hp
  have hneeds : ∀ n, size ⌈/⌉ p ≤ n ↔ size ≤ n * p := fun n => by
    rw [ceilDiv_le_iff_le_mul hp, Nat.mul_comm]
  have hpage : HCA_PAGE_SIZE = 4096 := rfl
  generalize size ⌈/⌉ p = c at hcount hneeds
  constructor
  · intro h
    have henough : c ≤ pageCount size p := (hneeds _).mpr h.enough
    have hbytes := h.bytes
    unfold queueBytes at hbytes
    rw [hcount] at henough
    rw [hcount, hpage] at hbytes
    omega
  · intro hlt
    have hsame : pageCount size p = c := by
      rw [hcount]
      exact Nat.mod_eq_of_lt (by omega)
    refine ⟨(hneeds _).mp (Nat.le_of_eq hsame.symm), fun n hn => ?_, ?_⟩
    · rw [hsame]
      exact (hneeds n).mpr hn
    · unfold queueBytes
      rw [hsame, hpage]
      omega

/-! ## The list of the addresses -/

/-- The address of a page does not wrap around below `2 ^ 20` pages. -/
theorem pagePhys_eq (hi : i < 2 ^ 20) (hphys : m.phys + i * 4096 < 2 ^ 64) :
    pagePhys m i = m.phys + i * 4096 := by
  have hpage : HCA_PAGE_SIZE = 4096 := rfl
  unfold pagePhys
  rw [hpage, Nat.mod_eq_of_lt (by omega : i * 4096 < 2 ^ 32)]
  exact Nat.mod_eq_of_lt hphys

/-- The words of the list for a page are the halves of its address, as long as the indexes do not
wrap around. -/
theorem pasList_word (hk : k ≤ 2 ^ 31 - 1) (hi : i < k) :
    (pasList m b k).word (2 * i) = msb (pagePhys m i) ∧
      (pasList m b k).word (2 * i + 1) = lsb (pagePhys m i) := by
  induction k with
  | zero => omega
  | succ k ih =>
    have hfirst : pasOffset k = 2 * k := by
      unfold pasOffset
      omega
    have hsecond : (pasOffset k + 1) % 2 ^ 32 = 2 * k + 1 := by
      rw [hfirst]
      exact Nat.mod_eq_of_lt (by omega)
    unfold pasList record put
    rw [hfirst] at hsecond ⊢
    rw [hsecond]
    dsimp only
    rcases Nat.lt_succ_iff_lt_or_eq.mp hi with hlt | rfl
    · -- The words of the earlier pages are not written again.
      have hold := ih (by omega) hlt
      rw [Function.update_of_ne (by omega), Function.update_of_ne (by omega),
        Function.update_of_ne (by omega), Function.update_of_ne (by omega)]
      exact hold
    · rw [Function.update_of_ne (by omega), Function.update_self, Function.update_self]
      exact ⟨rfl, rfl⟩

/-- The pages that the list of a queue names: each is at its place in the memory that has been
mapped for the queue, and inside of it. -/
structure ListsPages (e e' : Env Ctx) (n : ℕ) (qo : ElementPtr) : Prop where
  pages : ∃ d g, e'.queueAt qo = some d ∧ e'.dma.mapped = g :: e.dma.mapped ∧
    g.phys = d.dma_mem.phys ∧ ∀ i < n,
      address (d.pas_list.word (2 * i)) (d.pas_list.word (2 * i + 1)) =
        d.dma_mem.phys + i * HCA_PAGE_SIZE ∧
      d.dma_mem.phys + i * HCA_PAGE_SIZE + HCA_PAGE_SIZE ≤ g.phys + g.size

/-- `alloc_queue` counts the pages of a queue, and lists the addresses of that many pages of its
memory. -/
def AllocatesPages (e : Env Ctx) (size : ℕ) : Prop :=
  CountsPages size e.qop.pool.data.page_entry_count ∧
    Ends (allocQueue size) e
      (fun qo e' => ListsPages e e' (pageCount size e.qop.pool.data.page_entry_count) qo)
      fun _ _ => True

/-- `alloc_queue` lists pages of the queue's own memory, when there are fewer than `2 ^ 20`. -/
theorem ends_allocQueue_pages (hq : Sound e.qop) (hu : Sound e.uar_page_pool)
    (hmaps : e.dma.services.Maps) (hshift : e.dma.services.superpageShift ≤ 62)
    (hn : pageCount size e.qop.pool.data.page_entry_count < 2 ^ 20) :
    Ends (allocQueue size) e
      (fun qo e' => ListsPages e e' (pageCount size e.qop.pool.data.page_entry_count) qo)
      fun _ _ => True := by
  refine Ends.mono (allocQueue_room hq hu size) (fun qo e' halloc => ?_) fun _ _ _ => trivial
  obtain ⟨d, up, m, uar, hat, -, hmapped, hmap⟩ := halloc.data
  generalize pageCount size e.qop.pool.data.page_entry_count = n at hn hat hmapped hmap ⊢
  have hbytes : queueBytes n = n * 4096 := by
    have hpage : HCA_PAGE_SIZE = 4096 := rfl
    unfold queueBytes
    rw [hpage]
    omega
  have hfits := hmaps.fits _ _ _ _ hmap
  have hle : queueBytes n ≤ e.dma.services.superpages (queueBytes n) :=
    MEM.le_superpages (by omega) hshift
  rw [hbytes] at hfits hle
  refine ⟨_, _, hat, hmapped, rfl, fun i hi => ?_⟩
  obtain ⟨hmsb, hlsb⟩ := pasList_word (m := m) (b := ⟨n, e.uninit⟩) (k := n) (by omega) hi
  have hphys : pagePhys m i = m.phys + i * 4096 := pagePhys_eq (by omega) (by omega)
  constructor
  · show address ((pasList m ⟨n, e.uninit⟩ n).word _) ((pasList m ⟨n, e.uninit⟩ n).word _) =
      m.phys + i * 4096
    rw [hmsb, hlsb, hphys]
    exact address_msb_lsb (by omega)
  · show m.phys + i * 4096 + 4096 ≤ m.phys + e.dma.services.superpages _
    rw [hbytes]
    omega

/-- `alloc_queue` counts the pages and the bytes of a queue, and lists the pages, as it should
exactly when the entries need fewer than `2 ^ 20` pages. -/
theorem allocatesPages_iff (e : Env Ctx) (hq : Sound e.qop) (hu : Sound e.uar_page_pool)
    (hmaps : e.dma.services.Maps) (hshift : e.dma.services.superpageShift ≤ 62)
    (hp : 0 < e.qop.pool.data.page_entry_count) (size : ℕ) :
    AllocatesPages e size ↔ size ⌈/⌉ e.qop.pool.data.page_entry_count < 2 ^ 20 := by
  constructor
  · intro h
    exact (countsPages_iff hp).mp h.1
  · intro hlt
    refine ⟨(countsPages_iff hp).mpr hlt, ends_allocQueue_pages hq hu hmaps hshift ?_⟩
    rw [pageCount_eq hp, Nat.mod_eq_of_lt (by omega)]
    exact hlt

/-- Empty pools, with a number of entries in a page of a queue. -/
def emptyEnv (page_entry_count : ℕ) : Env Unit where
  qop := {
    world := ()
    pool := {
      max := 1024, size := 0, block_size := 64, block_count := 0
      data := ⟨page_entry_count, fun _ => none⟩, start := none, «end» := none }
    heap := {
      block := fun _ => none, fresh := 0,
      uninit := fun _ => ⟨0, none, none, (), fun _ =>
        ⟨false, { start := 0, size := 0, head := 0, dma_mem := ⟨0, 0⟩, id := 0, uarp := none,
                  pas_list := ⟨0, fun _ => 0⟩, q_ctx := () }, 0⟩⟩ } }
  uar_page_pool := UAR.freshPool
  dma := { services := MEM.roomy, requests := 0, mapped := [] }
  uninit _ := 0
  pas_overrun := false

/-- The queue object pool is empty. -/
theorem emptyEnv_qop (page_entry_count : ℕ) : Empty (emptyEnv page_entry_count).qop :=
  ⟨rfl, rfl, rfl, Nat.le_add_left 1 63, fun _ => rfl⟩

/-- So is the pool of UAR pages. -/
theorem emptyEnv_uar (page_entry_count : ℕ) : Empty (emptyEnv page_entry_count).uar_page_pool :=
  ⟨rfl, rfl, rfl, Nat.le_add_left 1 63, fun _ => rfl⟩

/-- Both pools are well formed. -/
theorem emptyEnv_sound (page_entry_count : ℕ) :
    Sound (emptyEnv page_entry_count).qop ∧ Sound (emptyEnv page_entry_count).uar_page_pool := by
  have hq := emptyEnv_qop page_entry_count
  have hu := emptyEnv_uar page_entry_count
  exact ⟨⟨hq.block_size, none, [], hq.rep⟩, ⟨hu.block_size, none, [], hu.rep⟩⟩

/-- Two pages of 64 entries each for 100 entries. -/
theorem allocatesPages_two : AllocatesPages (emptyEnv 64) 100 := by
  have hceil : 100 ⌈/⌉ 64 ≤ 2 := (ceilDiv_le_iff_le_mul (by norm_num)).mpr (by norm_num)
  apply (allocatesPages_iff (emptyEnv 64) (emptyEnv_sound 64).1 (emptyEnv_sound 64).2
    MEM.roomy_maps (by norm_num [emptyEnv, MEM.roomy]) (Nat.lt_of_sub_eq_succ rfl) 100).mpr
  exact Nat.lt_of_le_of_lt hceil (by norm_num)

/-- With one entry in each page, as for the work queues, `alloc_queue` asks for no memory at all for
`2 ^ 20` entries. -/
theorem not_allocatesPages : ¬ ∀ size, AllocatesPages (emptyEnv 1) size := fun h => by
  have hcounts : CountsPages (2 ^ 20) 1 := (h (2 ^ 20)).1
  have hlt : 2 ^ 20 ⌈/⌉ 1 < 2 ^ 20 := (countsPages_iff Nat.one_pos).mp hcounts
  rw [ceilDiv_one] at hlt
  exact absurd hlt (Nat.lt_irrefl _)

end L4Rdma.Q
