import L4Rdma.Queue.Count
import L4Rdma.Pool.GiveBack

/-!
# Giving a queue back

`free_queue` gives back what `alloc_queue` took: the queue object, the UAR page, the entry of the
index, and the DMA memory. It counts the pages of the queue once more and unmaps that many bytes,
but `alloc_dma_mem` has mapped a whole number of superpages. So the rest of the last superpage stays
mapped, and the DMA space is what it was exactly when there is no rest (`givesBack_iff`).
-/

namespace L4Rdma.MEM

variable {r g : Region} {p phys bytes size : ℕ} {mapped : List Region}

/-! ## Unmapping -/

/-- The addresses that are mapped. -/
def Covered (mapped : List Region) (p : ℕ) : Prop := ∃ r ∈ mapped, r.Covers p

/-- A region without another one has the addresses that only the first one has. -/
theorem covered_minus : Covered (r.minus g) p ↔ r.Covers p ∧ ¬ g.Covers p := by
  unfold Covered Region.minus
  simp only [List.mem_filter, List.mem_cons, List.not_mem_nil, or_false, decide_eq_true_eq]
  unfold Region.Covers
  constructor
  · rintro ⟨part, ⟨hpart | hpart, hpos⟩, hcovers⟩ <;> subst hpart <;> dsimp only at hpos hcovers <;>
      omega
  · intro ⟨hr, hg⟩
    rcases Nat.lt_or_ge p g.phys with hlt | hge
    · refine ⟨_, ⟨.inl rfl, ?_⟩, ?_⟩ <;> dsimp only <;> omega
    · refine ⟨_, ⟨.inr rfl, ?_⟩, ?_⟩ <;> dsimp only <;> omega

/-- An address is mapped by one range or by one of the others. -/
theorem covered_cons : Covered (g :: mapped) p ↔ g.Covers p ∨ Covered mapped p := by
  unfold Covered
  simp only [List.mem_cons, exists_eq_or_imp]

/-- Unmapping a region leaves the addresses outside of it. -/
theorem covered_unmap :
    Covered (mapped.flatMap fun r => r.minus g) p ↔ Covered mapped p ∧ ¬ g.Covers p := by
  constructor
  · rintro ⟨part, hpart, hcovers⟩
    obtain ⟨r, hr, hminus⟩ := List.mem_flatMap.mp hpart
    obtain ⟨hin, hout⟩ := covered_minus.mp ⟨part, hminus, hcovers⟩
    exact ⟨⟨r, hr, hin⟩, hout⟩
  · rintro ⟨⟨r, hr, hin⟩, hout⟩
    obtain ⟨part, hminus, hcovers⟩ := covered_minus.mpr ⟨hin, hout⟩
    exact ⟨part, List.mem_flatMap.mpr ⟨r, hr, hminus⟩, hcovers⟩

/-- Of a region that has been mapped at a free place, unmapping a part that starts at the same
address leaves nothing exactly when the part is all of it. -/
theorem covered_unmap_iff (hle : bytes ≤ size)
    (hapart : ∀ g ∈ mapped, phys + size ≤ g.phys ∨ g.phys + g.size ≤ phys) :
    (∀ p, Covered ((⟨phys, size⟩ :: mapped).flatMap fun r => r.minus ⟨phys, bytes⟩) p ↔
      Covered mapped p) ↔ size = bytes := by
  have hfree : ∀ p, phys ≤ p → p < phys + size → ¬ Covered mapped p := by
    rintro p hlo hhi ⟨g, hg, hcovers⟩
    have hdisjoint := hapart g hg
    unfold Region.Covers at hcovers
    omega
  constructor
  · intro h
    by_contra hne
    -- The first address behind the part is still mapped.
    have hmapped := (h (phys + bytes)).mp (covered_unmap.mpr ⟨covered_cons.mpr (.inl ?_), ?_⟩)
    · exact hfree _ (by omega) (by omega) hmapped
    · exact ⟨by show phys ≤ phys + bytes; omega, by show phys + bytes < phys + size; omega⟩
    · intro hpart
      exact Nat.lt_irrefl _ hpart.2
  · rintro rfl p
    rw [covered_unmap, covered_cons]
    constructor
    · rintro ⟨hin | hin, hout⟩
      · exact absurd hin hout
      · exact hin
    · intro hin
      exact ⟨.inr hin, fun hpart => hfree p hpart.1 hpart.2 hin⟩

end L4Rdma.MEM

namespace L4Rdma.PA

open Lib

variable {W PD BD ED : Type} {k : Kind W PD BD ED} {s s' s'' : State W PD BD ED}
  {l l' : List BlockPtr} {e : ElementPtr}

/-! ## An element that is out -/

/-- The element `e` is used in `s'` in addition to the elements that are used in `s`. -/
structure Lent (s s' : State W PD BD ED) (l l' : List BlockPtr) (e : ElementPtr) : Prop where
  rep : Rep s' none l'
  unused : ¬ UsedAt s l e
  used : ∀ e', UsedAt s' l' e' ↔ UsedAt s l e' ∨ e' = e
  size : s'.pool.size = s.pool.size + 1

/-- The pool is well-formed and the used elements and their number are those of before. -/
structure Restored (s s' : State W PD BD ED) (l : List BlockPtr) : Prop where
  used : ∃ pre l', Rep s' pre l' ∧ ∀ e, UsedAt s' l' e ↔ UsedAt s l e
  size : s'.pool.size = s.pool.size

/-- An element that has been taken is lent. -/
theorem Taken.lent (h : Taken k s s' none l l' e) : Lent s s' l l' e :=
  ⟨h.rep, h.unused, h.used, h.size⟩

/-- Writing the data of elements leaves what is used. -/
theorem Lent.setData (h : Lent s s' l l' e) (e' : ElementPtr) (d : ED) :
    Lent s (s'.setData e' d) l l' e where
  rep := h.rep.setData e' d
  unused := h.unused
  used e' := State.usedAt_setData.trans (h.used e')
  size := by rw [State.setData_pool, h.size]

/-- The state with other data of the pool. -/
def State.setPoolData (s : State W PD BD ED) (pd : PD) : State W PD BD ED :=
  { s with pool := { s.pool with data := pd } }

/-- The data of the pool has nothing to do with its blocks. -/
theorem Rep.setPoolData {pre : Option BlockPtr} (h : Rep s pre l) (pd : PD) :
    Rep (s.setPoolData pd) pre l :=
  ⟨⟨h.seg, h.last, h.block_count, h.exist, h.unborn, h.pre_nil⟩, h.ok, h.size_eq, h.size_le, h.stale⟩

/-- A change to the data of the pool leaves what is used. -/
theorem Lent.setPoolData (h : Lent s s' l l' e) (pd : PD) :
    Lent s (s'.setPoolData pd) l l' e where
  rep := h.rep.setPoolData pd
  unused := h.unused
  used := h.used
  size := h.size

/-- Giving the element back restores what was used. -/
theorem Lent.freePage (h : Lent s s' l l' e)
    (hrel : ∀ p bd w err w', k.release p bd w ≠ .error err w') :
    ∃ s'', PA.freePage k e s' = .ok () s'' ∧ Restored s s'' l ∧ s''.pool.data = s'.pool.data := by
  have hused : UsedAt s' l' e := (h.used e).mpr (.inr rfl)
  obtain ⟨s'', pre, l'', hfree, hrep, hgiven⟩ := freePage_total k h.rep hused hrel
  refine ⟨s'', hfree, ⟨⟨pre, l'', hrep, fun e' => ?_⟩, ?_⟩, hgiven.pool_data⟩
  · rw [hgiven.used e', h.used e']
    constructor
    · rintro ⟨hold | rfl, hne⟩
      · exact hold
      · exact absurd rfl hne
    · intro hold
      exact ⟨.inl hold, fun heq => h.unused (heq ▸ hold)⟩
  · have hback := hgiven.size
    have hout := h.size
    omega

end L4Rdma.PA

namespace L4Rdma.Q

open Lib PA

variable {Ctx : Type} {e e₁ : Env Ctx} {qo : ElementPtr} {size : ℕ} {l l' : List BlockPtr}
  {id : Word}

/-! ## Giving a queue back -/

/-- What `alloc_queue` has taken when it returns. -/
structure Borrowed (e e₁ : Env Ctx) (l l' : List BlockPtr) (size : ℕ) (qo : ElementPtr) :
    Prop where
  queue : ∃ lq, Lent e.qop e₁.qop l lq qo
  pool_data : e₁.qop.pool.data = e.qop.pool.data
  entries : 0 < e.qop.pool.data.page_entry_count
  services : e₁.dma.services = e.dma.services
  data : ∃ d up lu, e₁.queueAt qo = some d ∧ d.uarp = some up ∧ d.size = size ∧
    Lent e.uar_page_pool e₁.uar_page_pool l' lu up ∧
    e₁.dma.mapped = ⟨d.dma_mem.phys, e.dma.services.superpages
      (queueBytes (pageCount size e.qop.pool.data.page_entry_count))⟩ :: e.dma.mapped ∧
    e.dma.services.map e.dma.requests e.dma.mapped (e.dma.services.superpages
      (queueBytes (pageCount size e.qop.pool.data.page_entry_count))) = some d.dma_mem.phys

/-- What `alloc_queue` has taken when it returns. -/
theorem allocQueue_borrowed (hq : Rep e.qop none l) (hqs : 0 < e.qop.pool.block_size)
    (hu : Rep e.uar_page_pool none l') (hus : 0 < e.uar_page_pool.pool.block_size)
    (halloc : allocQueue size e = .ok qo e₁) : Borrowed e e₁ l l' size qo := by
  have hout := allocQueue_cases hq hqs hu hus size
  rw [halloc] at hout
  cases hout with
  | ok hlt hlt' qo up d e₀ htook e' hfill =>
    obtain ⟨lq, htq⟩ := htook.queue
    obtain ⟨lu, htu⟩ := htook.uar
    obtain ⟨hpool, hbefore, -⟩ := htook.setQueue (d.claim up size)
    cases hfill with
    | ok hpos n hn m dma hdma =>
      rw [hpool] at hpos hn
      subst hn
      rw [hbefore] at hdma
      obtain ⟨hmap, hservices, hmapped⟩ := MEM.allocDmaMem_ok hdma
      have hat : (e₀.setQueue qo (d.claim up size)).queueAt qo = some (d.claim up size) :=
        Env.queueAt_setQueue htook.data
      exact {
        queue := ⟨lq, (htq.lent.setData qo _).setData qo _⟩
        pool_data := by
          show ((e₀.qop.setData qo _).setData qo _).pool.data = _
          rw [State.setData_pool, State.setData_pool, htq.pool_data]
        entries := hpos
        services := hservices
        data := ⟨_, up, lu, Env.queueAt_setQueue hat, rfl, rfl, htu.lent, hmapped, hmap⟩ }

/-- The queue object gets its number, and is entered in the index. -/
def indexUnder (qo : ElementPtr) (id : Word) : Exec (State Ctx) Unit := do
  storeData (some qo) fun d => { d with id := id }
  indexQueue qo

/-- A queue that `alloc_queue` has left is entered in the index and freed. -/
def indexAndFree (qo : ElementPtr) (id : Word) : Exec (Env Ctx) Unit := do
  Env.qopLens.zoom (indexUnder qo id)
  freeQueue id.toNat

/-- In the pools there is what was there before `alloc_queue`, and the same addresses are mapped. -/
structure GaveBack (e e' : Env Ctx) (l l' : List BlockPtr) : Prop where
  queue : Restored e.qop e'.qop l
  index : e'.qop.pool.data = e.qop.pool.data
  uar : Restored e.uar_page_pool e'.uar_page_pool l'
  mapped : ∀ p, MEM.Covered e'.dma.mapped p ↔ MEM.Covered e.dma.mapped p

/-- The data of the pool with another entry of the index. -/
def PD.setIndex (pd : PD) (id : ℕ) (entry : Option ElementPtr) : PD :=
  { pd with index := Function.update pd.index id entry }

/-- Entering the queue in the index under its number. -/
theorem indexUnder_ok {s : State Ctx} {d : ED Ctx} (h : s.heap.dataAt qo = some d) (id : Word) :
    indexUnder qo id s = .ok () ((s.setData qo { d with id := id }).setPoolData
      (s.pool.data.setIndex id.toNat (some qo))) := by
  have hstore : storeData (some qo) (fun d => { d with id := id }) s =
      .ok () (s.setData qo { d with id := id }) := storeData_ok h _
  have hindex := indexQueue_ok (State.dataAt_setData_self h (d := { d with id := id }))
  unfold indexUnder
  refine (bind_of_ok hstore).trans (hindex.trans ?_)
  unfold State.setPoolData
  rw [State.setData_pool]
  rfl

/-- The environment without a number in the index. -/
def Env.extract (e : Env Ctx) (id : ℕ) : Env Ctx :=
  { e with qop := e.qop.setPoolData (e.qop.pool.data.setIndex id none) }

/-- `free_queue` at the number of a queue takes the number out of the index, and then gives back the
UAR page, the memory and the queue object. -/
theorem freeQueue_of_index {n up d} {id : ℕ} (hindex : e.qop.pool.data.index id = some qo)
    (hat : e.queueAt qo = some d) (hup : d.uarp = some up)
    (hpos : 0 < e.qop.pool.data.page_entry_count)
    (hn : n = pageCount d.size e.qop.pool.data.page_entry_count) :
    freeQueue id e = (do
      Env.uarLens.zoom (PA.freePage (UAR.kind Unit) up)
      Env.dmaLens.zoom (MEM.freeDmaMem (queueBytes n) d.dma_mem)
      Env.qopLens.zoom (PA.freePage (kind Unit Ctx) qo)) (e.extract id) := by
  have hat' : (e.extract id).queueAt qo = some d := hat
  obtain ⟨el, hderef, rfl⟩ := derefQueue_ok hat'
  have hcount : countPages el.data.size e.qop.pool.data.page_entry_count (e.extract id) =
      .ok n (e.extract id) := by
    unfold countPages
    rw [if_neg (Nat.ne_of_gt hpos), hn]
    rfl
  have hextract : Env.qopLens.zoom (modifyPool fun p =>
      { p with data.index := Function.update p.data.index id none }) e = .ok () (e.extract id) := rfl
  unfold freeQueue
  refine (get_bind _ _).trans ((bind_of_ok hextract).trans ?_)
  rw [hindex]
  refine (bind_of_ok hderef).trans ((bind_of_ok hcount).trans ?_)
  rw [hup]
  rfl

/-- Taking a new number out of the index again. -/
theorem PD.setIndex_setIndex {pd : PD} {id : ℕ} (h : pd.index id = none) (entry : Option ElementPtr) :
    (pd.setIndex id entry).setIndex id none = pd := by
  unfold PD.setIndex
  rw [Function.update_idem, ← h, Function.update_eq_self]

/-- What `free_queue` unmaps of the memory of a queue. -/
def Env.unmapped (e : Env Ctx) (n phys : ℕ) : List MEM.Region :=
  (⟨phys, e.dma.services.superpages (queueBytes n)⟩ :: e.dma.mapped).flatMap fun r =>
    r.minus ⟨phys, queueBytes n⟩

/-- `free_queue` gives back all but the rest of the last superpage. -/
theorem Borrowed.indexAndFree (h : Borrowed e e₁ l l' size qo)
    (hid : e.qop.pool.data.index id.toNat = none) (hunmaps : MEM.Unmaps e.dma.services) :
    ∃ e' phys n, n = pageCount size e.qop.pool.data.page_entry_count ∧
      Q.indexAndFree qo id e₁ = .ok () e' ∧ Restored e.qop e'.qop l ∧
      e'.qop.pool.data = e.qop.pool.data ∧ Restored e.uar_page_pool e'.uar_page_pool l' ∧
      e'.dma.mapped = e.unmapped n phys ∧
      e.dma.services.map e.dma.requests e.dma.mapped (e.dma.services.superpages (queueBytes n)) =
        some phys := by
  obtain ⟨lq, hlent⟩ := h.queue
  obtain ⟨d, up, lu, hat, hup, rfl, hlentu, hmapped, hmap⟩ := h.data
  generalize hn : pageCount d.size e.qop.pool.data.page_entry_count = n at hmapped hmap
  -- The queue is entered in the index.
  let d₁ : ED Ctx := { d with id := id }
  let e₂ : Env Ctx := { e₁ with
    qop := (e₁.qop.setData qo d₁).setPoolData (e₁.qop.pool.data.setIndex id.toNat (some qo)) }
  have hindex : Env.qopLens.zoom (indexUnder qo id) e₁ = .ok () e₂ :=
    Lens.zoom_of_ok (indexUnder_ok hat id)
  have hpool : e₂.qop.pool.data = e.qop.pool.data.setIndex id.toNat (some qo) := by
    show e₁.qop.pool.data.setIndex _ _ = _
    rw [h.pool_data]
  have hentries : e₂.qop.pool.data.page_entry_count = e.qop.pool.data.page_entry_count := by
    rw [hpool]
    rfl
  have hfound : e₂.qop.pool.data.index id.toNat = some qo := by
    rw [hpool]
    exact Function.update_self ..
  have hat₂ : e₂.queueAt qo = some d₁ := State.dataAt_setData_self hat
  -- `free_queue` counts the pages that `alloc_queue` has counted.
  have hcount : n = pageCount d₁.size e₂.qop.pool.data.page_entry_count := by
    rw [hentries]
    exact hn.symm
  have hfree := freeQueue_of_index hfound hat₂ hup (by rw [hentries]; exact h.entries) hcount
  -- The three parts are given back.
  let e₃ := e₂.extract id.toNat
  obtain ⟨u, huar, hrestoredu, -⟩ := hlentu.freePage (k := UAR.kind Unit)
    fun _ _ _ _ _ hrel => (nomatch hrel)
  have huar₃ : Env.uarLens.zoom (PA.freePage (UAR.kind Unit) up) e₃ =
      .ok () { e₃ with uar_page_pool := u } := Lens.zoom_of_ok huar
  have hunmaps₁ : MEM.Unmaps e₁.dma.services := h.services ▸ hunmaps
  obtain ⟨dma, hdma, -, hleft⟩ := MEM.freeDmaMem_unmaps hunmaps₁ (queueBytes n) d.dma_mem
  have hdma₃ : Env.dmaLens.zoom (MEM.freeDmaMem (queueBytes n) d.dma_mem)
      { e₃ with uar_page_pool := u } = .ok () { e₃ with uar_page_pool := u, dma := dma } :=
    Lens.zoom_of_ok hdma
  -- The queue object is still the one that was lent, whatever has been written to it.
  have hlent₃ : Lent e.qop e₃.qop l lq qo := ((hlent.setData qo d₁).setPoolData _).setPoolData _
  obtain ⟨q, hqueue, hrestored, hdata⟩ := hlent₃.freePage (k := kind Unit Ctx)
    fun _ _ _ _ _ hrel => (nomatch hrel)
  let e' : Env Ctx := { e₃ with uar_page_pool := u, dma := dma, qop := q }
  have hqueue₃ : Env.qopLens.zoom (PA.freePage (kind Unit Ctx) qo)
      { e₃ with uar_page_pool := u, dma := dma } = .ok () e' := Lens.zoom_of_ok hqueue
  refine ⟨e', d.dma_mem.phys, n, rfl, ?_, hrestored, ?_, hrestoredu, ?_, hmap⟩
  · unfold Q.indexAndFree
    refine (bind_of_ok hindex).trans (hfree.trans ?_)
    exact (bind_of_ok huar₃).trans ((bind_of_ok hdma₃).trans hqueue₃)
  · show q.pool.data = _
    rw [hdata]
    show e₂.qop.pool.data.setIndex _ _ = _
    rw [hpool]
    exact PD.setIndex_setIndex hid _
  · show dma.mapped = _
    rw [hleft, hmapped]
    rfl

/-- The queue that `alloc_queue` leaves can be given back, and then all is as it was before. -/
def GivesBack (e e₁ : Env Ctx) (l l' : List BlockPtr) (qo : ElementPtr) (id : Word) : Prop :=
  Ends (indexAndFree qo id) e₁ (fun _ e' => GaveBack e e' l l') fun _ _ => False

/-- A queue can be given back without a rest exactly when its memory fills whole superpages. -/
theorem Borrowed.whole_iff (h : Borrowed e e₁ l l' size qo) (hmaps : e.dma.services.Maps)
    (hunmaps : MEM.Unmaps e.dma.services) (hshift : e.dma.services.superpageShift ≤ 62)
    (hsmall : HCA_PAGE_SIZE * (size ⌈/⌉ e.qop.pool.data.page_entry_count) < 2 ^ 32)
    (hid : e.qop.pool.data.index id.toNat = none) :
    GivesBack e e₁ l l' qo id ↔ 2 ^ e.dma.services.superpageShift ∣
      HCA_PAGE_SIZE * (size ⌈/⌉ e.qop.pool.data.page_entry_count) := by
  obtain ⟨e', phys, n, hn, hrun, hqueue, hindex, huar, hleft, hmap⟩ := h.indexAndFree hid hunmaps
  -- The product does not wrap, so these are the bytes that `free_queue` unmaps.
  have hbytes : queueBytes n = HCA_PAGE_SIZE * (size ⌈/⌉ e.qop.pool.data.page_entry_count) := by
    have hpage : HCA_PAGE_SIZE = 4096 := rfl
    rw [hpage] at hsmall
    rw [hn, pageCount_eq h.entries, Nat.mod_eq_of_lt (by omega)]
    unfold queueBytes
    rw [hpage]
    exact Nat.mod_eq_of_lt hsmall
  have hle : queueBytes n ≤ 2 ^ 62 := by omega
  -- What it unmaps covers what has been mapped exactly when nothing was rounded up.
  have hsame := MEM.covered_unmap_iff (MEM.le_superpages hle hshift) (hmaps.apart _ _ _ _ hmap)
  rw [MEM.superpages_eq_iff hle hshift] at hsame
  rw [← hbytes, ← hsame]
  constructor
  · intro hgives
    have hback := hgives.1 _ _ hrun
    intro p
    rw [← hback.mapped p, hleft]
    rfl
  · intro hcovered
    refine ends_of_ok hrun ⟨hqueue, hindex, huar, fun p => ?_⟩
    rw [hleft]
    exact hcovered p

/-- After `alloc_queue`, indexing the queue under a new number and `free_queue` give back what was
taken, exactly when the pages of the queue fill whole superpages. -/
theorem givesBack_iff (hq : Rep e.qop none l) (hqs : 0 < e.qop.pool.block_size)
    (hu : Rep e.uar_page_pool none l') (hus : 0 < e.uar_page_pool.pool.block_size)
    (hmaps : e.dma.services.Maps) (hunmaps : MEM.Unmaps e.dma.services)
    (hshift : e.dma.services.superpageShift ≤ 62) (halloc : allocQueue size e = .ok qo e₁)
    (hsmall : HCA_PAGE_SIZE * (size ⌈/⌉ e.qop.pool.data.page_entry_count) < 2 ^ 32)
    (hid : e.qop.pool.data.index id.toNat = none) :
    GivesBack e e₁ l l' qo id ↔ 2 ^ e.dma.services.superpageShift ∣
      HCA_PAGE_SIZE * (size ⌈/⌉ e.qop.pool.data.page_entry_count) :=
  (allocQueue_borrowed hq hqs hu hus halloc).whole_iff hmaps hunmaps hshift hsmall hid

/-! ## Queues of empty pools -/

variable {page_entry_count : ℕ}

/-- A kernel that refuses nothing maps the first memory that is asked for. -/
theorem roomy_first {bytes : ℕ} (hle : bytes ≤ 2 ^ 62) :
    ∃ m dma, MEM.allocDmaMem bytes ⟨MEM.roomy, 0, []⟩ = .ok m dma := by
  have hfits : MEM.firstFree [] + MEM.roomy.superpages bytes ≤ 2 ^ 64 := by
    show 0 + MEM.roomy.superpages bytes ≤ 2 ^ 64
    unfold MEM.L4Re.superpages
    dsimp only
    split_ifs <;> omega
  have hmap : MEM.roomy.map 0 [] (MEM.roomy.superpages bytes) = some 0 := if_pos hfits
  unfold MEM.allocDmaMem
  rw [get_bind, modify_bind]
  dsimp only
  rw [hmap]
  exact ⟨_, _, rfl⟩

/-- There is room for a queue in empty pools. -/
theorem exists_allocQueue (hpos : 0 < page_entry_count) (size : ℕ) :
    ∃ qo e₁, allocQueue size (emptyEnv page_entry_count) = .ok qo e₁ := by
  have hq := emptyEnv_qop page_entry_count
  have hu := emptyEnv_uar page_entry_count
  have hout := allocQueue_cases hq.rep hq.block_size hu.rep hu.block_size size
  generalize hres : allocQueue size (emptyEnv page_entry_count) = res at hout
  cases hout with
  | noQueue hfull u => exact absurd hfull (by norm_num [emptyEnv])
  | noUar hlt hfull s => exact absurd hfull (by norm_num [emptyEnv, UAR.freshPool, UAR.initPool])
  | ok hlt hlt' qo up d e₀ htook e' hfill => exact ⟨qo, e', rfl⟩
  | stops hlt hlt' qo up d e₀ htook err e' hfill =>
    obtain ⟨hpool, hbefore, -⟩ := htook.setQueue (d.claim up size)
    cases hfill with
    | noCount hzero =>
      rw [hpool] at hzero
      exact absurd hzero (Nat.ne_of_gt hpos)
    | refused hpos' what dma hdma pas_list =>
      have hroomy : (emptyEnv page_entry_count).dma = ⟨MEM.roomy, 0, []⟩ := rfl
      rw [hbefore, hroomy] at hdma
      have hbytes : queueBytes (pageCount size
          (e₀.setQueue qo (d.claim up size)).qop.pool.data.page_entry_count) < 2 ^ 32 :=
        Nat.mod_lt _ (by norm_num)
      obtain ⟨m, dma', hok⟩ := roomy_first (Nat.le_trans (Nat.le_of_lt hbytes) (by norm_num))
      rw [hok] at hdma
      cases hdma

/-- A queue with `2 ^ 15` entries has 512 pages, which fill a superpage. -/
theorem givesBack_superpage : ∃ qo e₁, allocQueue (2 ^ 15) (emptyEnv 64) = .ok qo e₁ ∧
    GivesBack (emptyEnv 64) e₁ [] [] qo 7 := by
  obtain ⟨qo, e₁, halloc⟩ := exists_allocQueue (by norm_num : 0 < 64) (2 ^ 15)
  have hceil : 2 ^ 15 ⌈/⌉ (emptyEnv 64).qop.pool.data.page_entry_count = 512 := by
    show 2 ^ 15 ⌈/⌉ 64 = 512
    decide
  refine ⟨qo, e₁, halloc, ?_⟩
  apply (givesBack_iff (emptyEnv_qop 64).rep (emptyEnv_qop 64).block_size (emptyEnv_uar 64).rep
    (emptyEnv_uar 64).block_size MEM.roomy_maps (fun _ _ => rfl)
    (by norm_num [emptyEnv, MEM.roomy]) halloc (by rw [hceil]; norm_num [HCA_PAGE_SIZE]) rfl).mpr
  rw [hceil]
  exact ⟨1, rfl⟩

/-- The memory of a queue with one entry is not unmapped as a whole. -/
theorem not_givesBack : ¬ ∀ size qo e₁, 1 ≤ size → HCA_PAGE_SIZE * (size ⌈/⌉ 64) < 2 ^ 32 →
    allocQueue size (emptyEnv 64) = .ok qo e₁ → GivesBack (emptyEnv 64) e₁ [] [] qo 7 := fun h => by
  obtain ⟨qo, e₁, halloc⟩ := exists_allocQueue (by norm_num : 0 < 64) 1
  have hceil : 1 ⌈/⌉ (emptyEnv 64).qop.pool.data.page_entry_count = 1 := by
    show 1 ⌈/⌉ 64 = 1
    decide
  have hborrowed := allocQueue_borrowed (emptyEnv_qop 64).rep (emptyEnv_qop 64).block_size
    (emptyEnv_uar 64).rep (emptyEnv_uar 64).block_size halloc
  have hsmall : HCA_PAGE_SIZE * (1 ⌈/⌉ 64) < 2 ^ 32 := by decide
  have hdvd := (hborrowed.whole_iff MEM.roomy_maps (fun _ _ => rfl)
    (by norm_num [emptyEnv, MEM.roomy]) hsmall rfl).mp (h 1 qo e₁ (Nat.le_refl 1) hsmall halloc)
  rw [hceil] at hdvd
  exact absurd hdvd (by decide)

end L4Rdma.Q
