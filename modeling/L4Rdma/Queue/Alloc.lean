import L4Rdma.Queue.Model
import L4Rdma.Pool.Reached

/-!
# What `alloc_queue` does

`allocQueue` on well-formed pools has one of the outcomes of `AllocQueueOutcome`: it accesses a null
pointer when one of the two pools is full, it divides by zero, it throws when the kernel refuses
memory, or it returns a queue. The list of page addresses of the queue has `page_count` entries, and
two words are written to it for each page (`pasList`).
-/

namespace L4Rdma.Q

open Lib PA

variable {Ctx : Type} {e e' : Env Ctx} {qo : ElementPtr} {d d' : ED Ctx} {size n k : ℕ}
  {m : MEM.DmaMem} {b : Buf}

/-! ## Accessing a queue object -/

/-- The data of a queue object. -/
def Env.queueAt (e : Env Ctx) (qo : ElementPtr) : Option (ED Ctx) := e.qop.heap.dataAt qo

/-- The environment with other data for a queue object. -/
def Env.setQueue (e : Env Ctx) (qo : ElementPtr) (d : ED Ctx) : Env Ctx :=
  { e with qop := e.qop.setData qo d }

/-- The data of a queue object with another list of page addresses. -/
def ED.setPas (d : ED Ctx) (pas_list : Buf) : ED Ctx := { d with pas_list := pas_list }

/-- The environment with a note of accesses to a list of page addresses. -/
def Env.note (e : Env Ctx) (overrun : Bool) : Env Ctx :=
  { e with pas_overrun := e.pas_overrun || overrun }

/-- The queue object is the one that has been written. -/
theorem Env.queueAt_setQueue (h : e.queueAt qo = some d') :
    (e.setQueue qo d).queueAt qo = some d :=
  State.dataAt_setData_self h

/-- Writing a queue object twice. -/
theorem Env.setQueue_setQueue : (e.setQueue qo d').setQueue qo d = e.setQueue qo d := by
  unfold Env.setQueue
  simp only [State.setData_setData]

/-- Notes taken between two writes of the same queue object are those of before. -/
theorem Env.setQueue_note (x : Bool) :
    ((e.setQueue qo d').note x).setQueue qo d = (e.note x).setQueue qo d :=
  Env.setQueue_setQueue (e := e.note x)

/-- Taking two notes. -/
theorem Env.note_note (x y : Bool) : (e.note x).note y = e.note (x || y) := by
  unfold Env.note
  simp only [Bool.or_assoc]

/-- Reading a queue object. -/
theorem derefQueue_ok (h : e.queueAt qo = some d) :
    ∃ el, Env.qopLens.zoom (derefElement (some qo)) e = .ok el e ∧ el.data = d := by
  obtain ⟨el, hel, hd⟩ := Heap.exists_elem_of_dataAt h
  have hderef : derefElement (some qo) (Env.qopLens.view e) = .ok el e.qop := derefElement_ok hel
  exact ⟨el, Lens.zoom_of_ok hderef, hd⟩

/-- Writing to a queue object. -/
theorem storeQueue_ok (h : e.queueAt qo = some d) (f : ED Ctx → ED Ctx) :
    Env.qopLens.zoom (storeData (some qo) f) e = .ok () (e.setQueue qo (f d)) := by
  have hstore : storeData (some qo) f (Env.qopLens.view e) = .ok () (e.qop.setData qo (f d)) :=
    storeData_ok h f
  exact Lens.zoom_of_ok hstore

/-- The index of the UAR page of a queue. -/
theorem uarIndex_ok {up : ElementPtr} {uar : UAR.Uar} (h : e.queueAt qo = some d)
    (hup : d.uarp = some up) (huar : e.uar_page_pool.heap.dataAt up = some uar) :
    uarIndex qo e = .ok uar.index e := by
  obtain ⟨el, hderef, rfl⟩ := derefQueue_ok h
  obtain ⟨elu, helu, rfl⟩ := Heap.exists_elem_of_dataAt huar
  have hread : Env.uarLens.zoom (derefElement el.data.uarp) e = .ok elu e := by
    rw [hup]
    exact Lens.zoom_of_ok (derefElement_ok helu)
  unfold uarIndex
  exact (bind_of_ok hderef).trans (bind_of_ok hread)

/-- Entering a queue in the index. -/
theorem indexQueue_ok {s : State Ctx} (h : s.heap.dataAt qo = some d) :
    indexQueue qo s = .ok () { s with
      pool.data.index := Function.update s.pool.data.index d.id.toNat (some qo) } := by
  obtain ⟨el, hel, rfl⟩ := Heap.exists_elem_of_dataAt h
  exact bind_of_ok (derefElement_ok hel)

/-! ## The list of page addresses -/

/-- Writing a word to the list of page addresses. -/
theorem writePas_ok (h : e.queueAt qo = some d) (i : ℕ) (w : Word) :
    writePas qo i w e = .ok () ((e.note (decide (d.pas_list.size ≤ i))).setQueue qo
      (d.setPas (put d.pas_list i w))) := by
  obtain ⟨el, hderef, rfl⟩ := derefQueue_ok h
  have hnote : (e.note (decide (el.data.pas_list.size ≤ i))).queueAt qo = some el.data := h
  unfold writePas
  refine (bind_of_ok hderef).trans ?_
  refine (modify_bind _ _ _).trans ?_
  exact storeQueue_ok hnote fun d => d.setPas (put d.pas_list i w)

/-- Reading a word of the list of page addresses. -/
theorem readPas_ok (h : e.queueAt qo = some d) (i : ℕ) :
    readPas qo i e = .ok (d.pas_list.word i) (e.note (decide (d.pas_list.size ≤ i))) := by
  obtain ⟨el, hderef, rfl⟩ := derefQueue_ok h
  unfold readPas
  exact (bind_of_ok hderef).trans (modify_bind _ _ _)

/-- The list of page addresses with that of page `i`. -/
def record (m : MEM.DmaMem) (i : ℕ) (b : Buf) : Buf :=
  put (put b (pasOffset i) (msb (pagePhys m i))) ((pasOffset i + 1) % 2 ^ 32) (lsb (pagePhys m i))

/-- The list of page addresses with those of the first `k` pages. -/
def pasList (m : MEM.DmaMem) (b : Buf) : ℕ → Buf
  | 0 => b
  | k + 1 => record m k (pasList m b k)

/-- Whether one of the first `k` rounds writes beyond a list of `n` entries. -/
def overruns (n : ℕ) : ℕ → Bool
  | 0 => false
  | k + 1 => overruns n k ||
      (decide (n ≤ pasOffset k) || decide (n ≤ (pasOffset k + 1) % 2 ^ 32))

/-- Writing a word leaves the length of the list. -/
@[simp] theorem put_size (i : ℕ) (w : Word) : (put b i w).size = b.size := rfl

/-- So does writing the page addresses. -/
@[simp] theorem pasList_size (k : ℕ) : (pasList m b k).size = b.size := by
  induction k with
  | zero => rfl
  | succ k ih => exact ih

/-- A round whose second index is beyond the list overruns it. -/
theorem overruns_of_round {i : ℕ} (hi : i < k) (hle : n ≤ (pasOffset i + 1) % 2 ^ 32) :
    overruns n k = true := by
  induction k with
  | zero => omega
  | succ k ih =>
    unfold overruns
    rcases Nat.lt_succ_iff_lt_or_eq.mp hi with hlt | rfl
    · rw [ih hlt, Bool.true_or]
    · rw [decide_eq_true hle, Bool.or_true, Bool.or_true]

/-- A list with one entry for each page is overrun as soon as there is a page. Each page needs two
entries, so one of the later rounds writes beyond the list, also when its index wraps around. -/
theorem overruns_self (hn : n < 2 ^ 32) : overruns n n = decide (0 < n) := by
  rcases Nat.eq_zero_or_pos n with rfl | hpos
  · rfl
  · rw [decide_eq_true hpos]
    refine overruns_of_round (i := min (n - 1) (2 ^ 31 - 1)) (by omega) ?_
    unfold pasOffset
    omega

/-- One round writes the two halves of the address of a page. -/
theorem recordPage_ok (h : e.queueAt qo = some d) (i : ℕ) :
    recordPage qo i () e = .ok () ((e.note (decide (d.pas_list.size ≤ pasOffset i) ||
        decide (d.pas_list.size ≤ (pasOffset i + 1) % 2 ^ 32))).setQueue qo
      (d.setPas (record d.dma_mem i d.pas_list))) := by
  obtain ⟨el, hderef, rfl⟩ := derefQueue_ok h
  let d₁ : ED Ctx := el.data.setPas
    (put el.data.pas_list (pasOffset i) (msb (pagePhys el.data.dma_mem i)))
  have hnote : (e.note (decide (el.data.pas_list.size ≤ pasOffset i))).queueAt qo =
      some el.data := h
  have hfirst := Env.queueAt_setQueue (d := d₁) hnote
  unfold recordPage
  refine (bind_of_ok hderef).trans ((bind_of_ok (writePas_ok h _ _)).trans ?_)
  refine (writePas_ok hfirst _ _).trans ?_
  rw [Env.setQueue_note, Env.note_note]
  rfl

/-- The loop writes the addresses of all pages. -/
theorem recordPages_ok (h : e.queueAt qo = some d) (n : ℕ) :
    forRange n () (recordPage qo) e =
      .ok () ((e.note (overruns d.pas_list.size n)).setQueue qo
        (d.setPas (pasList d.dma_mem d.pas_list n))) := by
  -- Before the first one nothing is noted, and nothing has been written.
  have hstart : e = (e.note (overruns d.pas_list.size 0)).setQueue qo
      (d.setPas (pasList d.dma_mem d.pas_list 0)) := by
    have hnone : e.note false = e := by
      unfold Env.note
      rw [Bool.or_false]
    have hself : e.qop.setData qo d = e.qop := State.setData_self h
    show e = (e.note false).setQueue qo d
    rw [hnone, Env.setQueue, hself]
  -- After `k` rounds, the list has the words of `k` pages, and the note says whether it has been overrun.
  have hrounds : ∃ u e', forRange n () (recordPage qo) e = .ok u e' ∧
      e' = (e.note (overruns d.pas_list.size n)).setQueue qo
        (d.setPas (pasList d.dma_mem d.pas_list n)) := by
    refine forRange_ok (fun k _ e' => e' = (e.note (overruns d.pas_list.size k)).setQueue qo
      (d.setPas (pasList d.dma_mem d.pas_list k))) hstart fun k u e' _ he' => ?_
    subst he'
    have hat := Env.queueAt_setQueue (e := e.note (overruns d.pas_list.size k))
      (d := d.setPas (pasList d.dma_mem d.pas_list k)) h
    refine ⟨(), _, recordPage_ok hat k, ?_⟩
    rw [Env.setQueue_note, Env.note_note]
    have hsize : (d.setPas (pasList d.dma_mem d.pas_list k)).pas_list.size = d.pas_list.size :=
      pasList_size k
    rw [hsize]
    rfl
  obtain ⟨u, e', hloop, rfl⟩ := hrounds
  exact hloop

/-! ## `alloc_queue` -/

/-- The number of bytes that `alloc_queue` asks for. -/
def queueBytes (page_count : ℕ) : ℕ := HCA_PAGE_SIZE * page_count % 2 ^ 32

/-- The queue object that `alloc_queue` leaves, given the memory that it has got. -/
def ED.fill (d : ED Ctx) (m : MEM.DmaMem) (page_count : ℕ) (uninit : ℕ → Word) : ED Ctx :=
  { d with
    start := m.virt
    head := 0
    dma_mem := m
    pas_list := pasList m ⟨page_count, uninit⟩ page_count }

/-- The outcomes of the last part of `alloc_queue`, on a queue object with the data `d`. -/
inductive FillOutcome (e : Env Ctx) (qo : ElementPtr) (d : ED Ctx) (size : ℕ) :
    EStateM.Result Stop (Env Ctx) Unit → Prop
  /-- The number of pages cannot be computed. -/
  | noCount (hzero : e.qop.pool.data.page_entry_count = 0) :
    FillOutcome e qo d size (.error (.undefined .division_by_zero) e)
  /-- The kernel refuses memory for the queue. -/
  | refused (hpos : 0 < e.qop.pool.data.page_entry_count) (what : String) (dma : MEM.Dma)
    (hdma : MEM.allocDmaMem (queueBytes (pageCount size e.qop.pool.data.page_entry_count)) e.dma =
      .error (.thrown what) dma) (pas_list : Buf) :
    FillOutcome e qo d size
      (.error (.thrown what) ({ e with dma := dma }.setQueue qo (d.setPas pas_list)))
  /-- The queue has memory, and the list of the addresses of its pages. -/
  | ok (hpos : 0 < e.qop.pool.data.page_entry_count) (n : ℕ)
    (hn : n = pageCount size e.qop.pool.data.page_entry_count) (m : MEM.DmaMem) (dma : MEM.Dma)
    (hdma : MEM.allocDmaMem (queueBytes n) e.dma = .ok m dma) :
    FillOutcome e qo d size
      (.ok () (({ e with dma := dma }.note (overruns n n)).setQueue qo (d.fill m n e.uninit)))

/-- `alloc_dma_mem` throws when it does not return. -/
theorem allocDmaMem_error {bytes : ℕ} {dma dma' : MEM.Dma} {err : Stop}
    (h : MEM.allocDmaMem bytes dma = .error err dma') : ∃ what, err = .thrown what := by
  have hthrown := MEM.avoids_allocDmaMem bytes dma err dma' h
  push Not at hthrown
  exact hthrown

/-- The number of pages, when it can be computed. -/
theorem countPages_ok (size : ℕ) (hpos : 0 < e.qop.pool.data.page_entry_count) :
    countPages size e.qop.pool.data.page_entry_count e =
      .ok (pageCount size e.qop.pool.data.page_entry_count) e := by
  unfold countPages
  rw [if_neg (Nat.ne_of_gt hpos)]
  rfl

/-- The last part of `alloc_queue` when the kernel refuses memory: the list of the addresses has been
made already. -/
theorem fillQueue_refused (h : e.queueAt qo = some d) (hpos : 0 < e.qop.pool.data.page_entry_count)
    {err : Stop} {dma : MEM.Dma}
    (hdma : MEM.allocDmaMem (queueBytes (pageCount size e.qop.pool.data.page_entry_count)) e.dma =
      .error err dma) :
    fillQueue qo size e = .error err ({ e with dma := dma }.setQueue qo
      (d.setPas ⟨pageCount size e.qop.pool.data.page_entry_count, e.uninit⟩)) := by
  have hcount := countPages_ok size hpos
  generalize pageCount size e.qop.pool.data.page_entry_count = n at hcount hdma ⊢
  have hlist := storeQueue_ok h fun d => d.setPas ⟨n, e.uninit⟩
  have hzoom : Env.dmaLens.zoom (MEM.allocDmaMem (queueBytes n))
      (e.setQueue qo (d.setPas ⟨n, e.uninit⟩)) =
        .error err ({ e with dma := dma }.setQueue qo (d.setPas ⟨n, e.uninit⟩)) :=
    Lens.zoom_of_error hdma
  unfold fillQueue
  refine (get_bind _ _).trans ((bind_of_ok hcount).trans ((bind_of_ok hlist).trans ?_))
  exact bind_of_error hzoom

/-- The last part of `alloc_queue` when there is memory. -/
theorem fillQueue_ok (h : e.queueAt qo = some d) (hpos : 0 < e.qop.pool.data.page_entry_count)
    (hn : n = pageCount size e.qop.pool.data.page_entry_count) {dma : MEM.Dma}
    (hdma : MEM.allocDmaMem (queueBytes n) e.dma = .ok m dma) :
    fillQueue qo size e =
      .ok () (({ e with dma := dma }.note (overruns n n)).setQueue qo (d.fill m n e.uninit)) := by
  have hcount := countPages_ok size hpos
  rw [← hn] at hcount
  let d₁ : ED Ctx := d.setPas ⟨n, e.uninit⟩
  let e₂ : Env Ctx := { e with dma := dma }
  have hlist := storeQueue_ok h fun d => d.setPas ⟨n, e.uninit⟩
  have hat₁ : e₂.queueAt qo = some d := h
  have hat₂ := Env.queueAt_setQueue (d := d₁) hat₁
  have hzoom : Env.dmaLens.zoom (MEM.allocDmaMem (queueBytes n)) (e.setQueue qo d₁) =
      .ok m (e₂.setQueue qo d₁) := Lens.zoom_of_ok hdma
  have hmem := storeQueue_ok hat₂ fun d => { d with dma_mem := m }
  rw [Env.setQueue_setQueue] at hmem
  have hat₃ := Env.queueAt_setQueue (d := { d₁ with dma_mem := m }) hat₁
  have hloop := recordPages_ok hat₃ n
  have hat₄ := Env.queueAt_setQueue (e := (e₂.setQueue qo { d₁ with dma_mem := m }).note
    (overruns n n)) (d := { d₁ with dma_mem := m, pas_list := pasList m ⟨n, e.uninit⟩ n }) hat₃
  have hstart := storeQueue_ok hat₄ fun d => { d with start := d.dma_mem.virt, head := 0 }
  unfold fillQueue
  refine (get_bind _ _).trans ((bind_of_ok hcount).trans ((bind_of_ok hlist).trans ?_))
  refine (bind_of_ok hzoom).trans ((bind_of_ok hmem).trans ((bind_of_ok hloop).trans ?_))
  refine hstart.trans ?_
  rw [Env.setQueue_setQueue, Env.setQueue_note]
  rfl

/-- The last part of `alloc_queue`. -/
theorem fillQueue_cases (h : e.queueAt qo = some d) (size : ℕ) :
    FillOutcome e qo d size (fillQueue qo size e) := by
  rcases Nat.eq_zero_or_pos e.qop.pool.data.page_entry_count with hzero | hpos
  · have hcount : countPages size e.qop.pool.data.page_entry_count e =
        .error (.undefined .division_by_zero) e := by
      unfold countPages
      rw [if_pos hzero]
      rfl
    have hres : fillQueue qo size e = .error (.undefined .division_by_zero) e := by
      unfold fillQueue
      exact (get_bind _ _).trans (bind_of_error hcount)
    rw [hres]
    exact .noCount hzero
  cases hdma : MEM.allocDmaMem (queueBytes (pageCount size e.qop.pool.data.page_entry_count))
      e.dma with
  | error err dma =>
    obtain ⟨what, rfl⟩ := allocDmaMem_error hdma
    rw [fillQueue_refused h hpos hdma]
    exact .refused hpos what dma hdma _
  | ok m dma =>
    rw [fillQueue_ok h hpos rfl hdma]
    exact .ok hpos _ rfl m dma hdma

variable {pre pre' : Option BlockPtr} {l l' : List BlockPtr} {e₁ : Env Ctx} {up : ElementPtr}

/-- A queue object and a UAR page have been taken between `e` and `e₁`. -/
structure Took (e e₁ : Env Ctx) (pre pre' : Option BlockPtr) (l l' : List BlockPtr)
    (qo up : ElementPtr) (d : ED Ctx) : Prop where
  queue : ∃ l₁, Taken (kind Unit Ctx) e.qop e₁.qop pre l l₁ qo
  uar : ∃ l₁, Taken (UAR.kind Unit) e.uar_page_pool e₁.uar_page_pool pre' l' l₁ up
  data : e₁.queueAt qo = some d
  dma : e₁.dma = e.dma
  uninit : e₁.uninit = e.uninit
  pas_overrun : e₁.pas_overrun = e.pas_overrun

/-- The queue object that `alloc_queue` starts from. -/
def ED.claim (d : ED Ctx) (up : ElementPtr) (size : ℕ) : ED Ctx :=
  { d with uarp := some up, size := size }

/-- The outcomes of `alloc_queue` on well-formed pools. -/
inductive AllocQueueOutcome (e : Env Ctx) (pre pre' : Option BlockPtr) (l l' : List BlockPtr)
    (size : ℕ) : EStateM.Result Stop (Env Ctx) ElementPtr → Prop
  /-- There is no queue object left. -/
  | noQueue (hfull : e.qop.pool.size = e.qop.pool.max) (u : UAR.State Unit) :
    AllocQueueOutcome e pre pre' l l' size
      (.error (.undefined .null_deref) { e with uar_page_pool := u })
  /-- There is no UAR page left. -/
  | noUar (hlt : e.qop.pool.size < e.qop.pool.max)
    (hfull : e.uar_page_pool.pool.size = e.uar_page_pool.pool.max) (s : State Ctx) :
    AllocQueueOutcome e pre pre' l l' size (.error (.undefined .null_deref) { e with qop := s })
  /-- Both have been taken, but the last part stops. -/
  | stops (hlt : e.qop.pool.size < e.qop.pool.max)
    (hlt' : e.uar_page_pool.pool.size < e.uar_page_pool.pool.max) (qo up : ElementPtr)
    (d : ED Ctx) (e₁ : Env Ctx) (h : Took e e₁ pre pre' l l' qo up d) (err : Stop) (e' : Env Ctx)
    (hfill : FillOutcome (e₁.setQueue qo (d.claim up size)) qo (d.claim up size) size
      (.error err e')) : AllocQueueOutcome e pre pre' l l' size (.error err e')
  /-- There is a new queue. -/
  | ok (hlt : e.qop.pool.size < e.qop.pool.max)
    (hlt' : e.uar_page_pool.pool.size < e.uar_page_pool.pool.max) (qo up : ElementPtr)
    (d : ED Ctx) (e₁ : Env Ctx) (h : Took e e₁ pre pre' l l' qo up d) (e' : Env Ctx)
    (hfill : FillOutcome (e₁.setQueue qo (d.claim up size)) qo (d.claim up size) size
      (.ok () e')) : AllocQueueOutcome e pre pre' l l' size (.ok qo e')

/-- `alloc_queue` without a queue object, whatever becomes of the UAR page. -/
theorem allocQueue_noQueue {uarp : Option ElementPtr} {u : UAR.State Unit}
    (hqres : allocPage (kind Unit Ctx) e.qop = .ok none e.qop)
    (hures : allocPage (UAR.kind Unit) e.uar_page_pool = .ok uarp u) (size : ℕ) :
    allocQueue size e = .error (.undefined .null_deref) { e with uar_page_pool := u } := by
  have hq₁ : Env.qopLens.zoom (allocPage (kind Unit Ctx)) e = .ok none e := Lens.zoom_of_ok hqres
  have hu₁ : Env.uarLens.zoom (allocPage (UAR.kind Unit)) e =
      .ok uarp { e with uar_page_pool := u } := Lens.zoom_of_ok hures
  unfold allocQueue
  exact (bind_of_ok hq₁).trans (bind_of_ok hu₁)

/-- `alloc_queue` without a UAR page: the queue object is written to, and then the page is read. -/
theorem allocQueue_noUar {s : State Ctx}
    (hqres : allocPage (kind Unit Ctx) e.qop = .ok (some qo) s) (hd : s.heap.dataAt qo = some d)
    (hures : allocPage (UAR.kind Unit) e.uar_page_pool = .ok none e.uar_page_pool) (size : ℕ) :
    ∃ s', allocQueue size e = .error (.undefined .null_deref) { e with qop := s' } := by
  let e₁ : Env Ctx := { e with qop := s }
  have hq₁ : Env.qopLens.zoom (allocPage (kind Unit Ctx)) e = .ok (some qo) e₁ :=
    Lens.zoom_of_ok hqres
  have hu₁ : Env.uarLens.zoom (allocPage (UAR.kind Unit)) e₁ = .ok none e₁ :=
    Lens.zoom_of_ok hures
  have hat₁ : e₁.queueAt qo = some d := hd
  have hstore := storeQueue_ok hat₁ fun d => { d with uarp := none, size := size }
  refine ⟨(e₁.setQueue qo { d with uarp := none, size := size }).qop, ?_⟩
  unfold allocQueue
  refine (bind_of_ok hq₁).trans ((bind_of_ok hu₁).trans ((bind_of_ok hstore).trans ?_))
  exact bind_of_error (Lens.zoom_of_error rfl)

/-- With both `alloc_queue` goes on with its last part, at the object that it has claimed. -/
theorem allocQueue_took {s : State Ctx} {u : UAR.State Unit} {du : UAR.Uar}
    (hqres : allocPage (kind Unit Ctx) e.qop = .ok (some qo) s) (hd : s.heap.dataAt qo = some d)
    (hures : allocPage (UAR.kind Unit) e.uar_page_pool = .ok (some up) u)
    (hdu : u.heap.dataAt up = some du) (size : ℕ) :
    allocQueue size e = (fillQueue qo size >>= fun _ => pure qo)
      (Env.setQueue { e with qop := s, uar_page_pool := u } qo (d.claim up size)) := by
  let e₁ : Env Ctx := { e with qop := s, uar_page_pool := u }
  have hat₁ : e₁.queueAt qo = some d := hd
  have hq₁ : Env.qopLens.zoom (allocPage (kind Unit Ctx)) e = .ok (some qo) { e with qop := s } :=
    Lens.zoom_of_ok hqres
  have hu₁ : Env.uarLens.zoom (allocPage (UAR.kind Unit)) { e with qop := s } =
      .ok (some up) e₁ := Lens.zoom_of_ok hures
  have hstore := storeQueue_ok hat₁ fun d => d.claim up size
  obtain ⟨elu, helu, -⟩ := Heap.exists_elem_of_dataAt hdu
  -- The index of the UAR page is printed, so that the page is read.
  have hprint : Env.uarLens.zoom (derefElement (some up)) (e₁.setQueue qo (d.claim up size)) =
      .ok elu (e₁.setQueue qo (d.claim up size)) := by
    have hderef : derefElement (some up)
        (Env.uarLens.view (e₁.setQueue qo (d.claim up size))) = .ok elu u := derefElement_ok helu
    exact Lens.zoom_of_ok hderef
  unfold allocQueue
  refine (bind_of_ok hq₁).trans ((bind_of_ok hu₁).trans ?_)
  exact (bind_of_ok hstore).trans (bind_of_ok hprint)

/-- `alloc_queue` on well-formed pools. -/
theorem allocQueue_cases (hq : Rep e.qop pre l) (hqs : 0 < e.qop.pool.block_size)
    (hu : Rep e.uar_page_pool pre' l') (hus : 0 < e.uar_page_pool.pool.block_size) (size : ℕ) :
    AllocQueueOutcome e pre pre' l l' size (allocQueue size e) := by
  -- Neither pool has to ask for anything to set up a block, so each has an object or is full.
  have hqo := allocPage_total (kind Unit Ctx) hq hqs fun _ _ _ _ herr => (nomatch herr)
  have hup := allocPage_total (UAR.kind Unit) hu hus fun _ _ _ _ herr => (nomatch herr)
  rcases hqo with ⟨hfull, hqres⟩ | ⟨hlt, qo, s, l₁, d, hqres, ht, hd⟩
  · obtain ⟨uarp, u, hures⟩ : ∃ uarp u, allocPage (UAR.kind Unit) e.uar_page_pool = .ok uarp u := by
      rcases hup with ⟨-, hures⟩ | ⟨-, up, u, -, -, hures, -⟩
      · exact ⟨none, _, hures⟩
      · exact ⟨some up, u, hures⟩
    rw [allocQueue_noQueue hqres hures]
    exact .noQueue hfull u
  rcases hup with ⟨hfull, hures⟩ | ⟨hlt', up, u, l₂, du, hures, htu, hdu⟩
  · obtain ⟨s', hres⟩ := allocQueue_noUar hqres hd hures size
    rw [hres]
    exact .noUar hlt hfull s'
  let e₁ : Env Ctx := { e with qop := s, uar_page_pool := u }
  have hat₁ : e₁.queueAt qo = some d := hd
  have htook : Took e e₁ pre pre' l l' qo up d :=
    ⟨⟨l₁, ht⟩, ⟨l₂, htu⟩, hat₁, rfl, rfl, rfl⟩
  have hfill := fillQueue_cases (Env.queueAt_setQueue (d := d.claim up size) hat₁) size
  rw [allocQueue_took hqres hd hures hdu]
  cases hres : fillQueue qo size (e₁.setQueue qo (d.claim up size)) with
  | ok u' e' =>
    rw [hres] at hfill
    rw [bind_of_ok hres]
    exact .ok hlt hlt' qo up d e₁ htook e' hfill
  | error err e' =>
    rw [hres] at hfill
    rw [bind_of_error hres]
    exact .stops hlt hlt' qo up d e₁ htook err e' hfill

/-! ## A queue that has been allocated -/

/-- A few entries need at least one page, and not more pages than entries. -/
theorem pageCount_bounds {p : ℕ} (hsize : 0 < size) (hlt : size < 2 ^ 32) (hp : 0 < p) :
    0 < pageCount size p ∧ pageCount size p ≤ size := by
  have hle : size / p ≤ size := Nat.div_le_self size p
  have hdiv : p * (size / p) + size % p = size := Nat.div_add_mod size p
  unfold pageCount
  split_ifs with h
  · have hhalf : size / p + 1 ≤ size := by
      rcases Nat.eq_or_lt_of_le (Nat.succ_le_of_lt hp) with hone | htwo
      · rw [← hone, Nat.mod_one] at h
        exact absurd rfl h
      · exact Nat.div_lt_self hsize htwo
    rw [Nat.mod_eq_of_lt (Nat.lt_of_le_of_lt hhalf hlt)]
    exact ⟨Nat.succ_pos _, hhalf⟩
  · have hpos : 0 < size / p := by
      rcases Nat.eq_zero_or_pos (size / p) with hzero | hpos
      · rw [hzero] at hdiv
        omega
      · exact hpos
    rw [Nat.mod_eq_of_lt (Nat.lt_of_le_of_lt hle hlt)]
    exact ⟨hpos, hle⟩

/-- What `alloc_queue` leaves when it returns a queue. -/
structure Allocated (e e' : Env Ctx) (size : ℕ) (qo : ElementPtr) : Prop where
  queue : Grew e.qop e'.qop 1
  pool_data : e'.qop.pool.data = e.qop.pool.data
  uar : Grew e.uar_page_pool e'.uar_page_pool 1
  services : e'.dma.services = e.dma.services
  uninit : e'.uninit = e.uninit
  pas_overrun : e'.pas_overrun =
    (e.pas_overrun || decide (0 < pageCount size e.qop.pool.data.page_entry_count))
  /-- The queue has memory of its own and a UAR page. -/
  data : ∃ d up m uar, e'.queueAt qo = some ((ED.claim d up size).fill m
      (pageCount size e.qop.pool.data.page_entry_count) e.uninit) ∧
    e'.uar_page_pool.heap.dataAt up = some uar ∧
    e'.dma.mapped = ⟨m.phys, e.dma.services.superpages
      (queueBytes (pageCount size e.qop.pool.data.page_entry_count))⟩ :: e.dma.mapped ∧
    e.dma.services.map e.dma.requests e.dma.mapped (e.dma.services.superpages
      (queueBytes (pageCount size e.qop.pool.data.page_entry_count))) = some m.phys

/-- A UAR page that has been taken has data. -/
theorem Took.uarData (h : Took e e₁ pre pre' l l' qo up d) :
    ∃ uar, e₁.uar_page_pool.heap.dataAt up = some uar := by
  obtain ⟨l₁, ht⟩ := h.uar
  obtain ⟨-, -, el, hel, -⟩ := usedAt_iff.mp ((ht.used up).mpr (.inr rfl))
  exact ⟨el.data, by rw [Heap.dataAt, hel]; rfl⟩

/-- The last part of `alloc_queue` works on the same DMA space, and counts pages in the same way. -/
theorem Took.setQueue (h : Took e e₁ pre pre' l l' qo up d) (d' : ED Ctx) :
    (e₁.setQueue qo d').qop.pool.data = e.qop.pool.data ∧ (e₁.setQueue qo d').dma = e.dma ∧
      (e₁.setQueue qo d').pas_overrun = e.pas_overrun := by
  obtain ⟨lq, htq⟩ := h.queue
  refine ⟨?_, h.dma, h.pas_overrun⟩
  show (e₁.qop.setData qo _).pool.data = _
  rw [State.setData_pool, htq.pool_data]

/-- The last part of `alloc_queue` completes what has been taken. -/
theorem Took.allocated (h : Took e e₁ pre pre' l l' qo up d) (hq : Sound e.qop)
    (hu : Sound e.uar_page_pool) {dma : MEM.Dma}
    (hn : n = pageCount size e.qop.pool.data.page_entry_count)
    (hdma : MEM.allocDmaMem (queueBytes n) e.dma = .ok m dma) :
    Allocated e (({ e₁.setQueue qo (d.claim up size) with dma := dma }.note (overruns n n)).setQueue
      qo ((d.claim up size).fill m n e₁.uninit)) size qo := by
  obtain ⟨lq, htq⟩ := h.queue
  obtain ⟨lu, htu⟩ := h.uar
  obtain ⟨uar, huar⟩ := h.uarData
  obtain ⟨hmap, hservices, hmapped⟩ := MEM.allocDmaMem_ok hdma
  -- Writing to the queue object, which has been taken, does not take another one.
  have hclaim := (hq.grew_taken htq).sound.grew_setData qo (d.claim up size)
  have hfill := hclaim.sound.grew_setData qo ((d.claim up size).fill m n e₁.uninit)
  have hat : (e₁.setQueue qo (d.claim up size)).queueAt qo = some (d.claim up size) :=
    Env.queueAt_setQueue h.data
  have hlt : n < 2 ^ 32 := by
    rw [hn]
    exact Nat.mod_lt _ (by decide)
  subst hn
  exact {
    queue := ((hq.grew_taken htq).trans hclaim).trans hfill
    pool_data := by
      show ((e₁.qop.setData qo _).setData qo _).pool.data = _
      rw [State.setData_pool, State.setData_pool, htq.pool_data]
    uar := hu.grew_taken htu
    services := hservices
    uninit := h.uninit
    pas_overrun := by
      show (e₁.pas_overrun || overruns _ _) = _
      rw [h.pas_overrun, overruns_self hlt]
    data := ⟨d, up, m, uar, by rw [← h.uninit]; exact Env.queueAt_setQueue hat, huar, hmapped,
      hmap⟩ }

/-- `alloc_queue` on well-formed pools. It takes a queue object and a UAR page when there are both,
and otherwise accesses a null pointer. -/
theorem allocQueue_room (hq : Sound e.qop) (hu : Sound e.uar_page_pool) (size : ℕ) :
    Ends (allocQueue size) e (fun qo e' => Allocated e e' size qo)
      fun err e' => e'.pas_overrun = e.pas_overrun ∧
        (err = .undefined .null_deref → e.qop.pool.size = e.qop.pool.max ∨
          e.uar_page_pool.pool.size = e.uar_page_pool.pool.max) ∧
        (e.dma.services.Grants → 0 < e.qop.pool.data.page_entry_count →
          err = .undefined .null_deref) := by
  obtain ⟨pre, l, hrep⟩ := hq.rep
  obtain ⟨pre', l', hrep'⟩ := hu.rep
  have hout := allocQueue_cases hrep hq.block_size_pos hrep' hu.block_size_pos size
  generalize hres : allocQueue size e = res at hout
  -- The outcomes of the call, in the order in which it can stop.
  cases hout with
  | noQueue hfull u => exact ends_of_error hres ⟨rfl, fun _ => .inl hfull, fun _ _ => rfl⟩
  | noUar hlt hfull s => exact ends_of_error hres ⟨rfl, fun _ => .inr hfull, fun _ _ => rfl⟩
  | ok hlt hlt' qo up d e₁ htook e' hfill =>
    obtain ⟨hpool, hdma, -⟩ := htook.setQueue (d.claim up size)
    cases hfill with
    | ok hpos n hn m dma halloc =>
      rw [hpool] at hn
      rw [hdma] at halloc
      exact ends_of_ok hres (htook.allocated hq hu hn halloc)
  | stops hlt hlt' qo up d e₁ htook err e' hfill =>
    obtain ⟨hpool, hdma, hflag⟩ := htook.setQueue (d.claim up size)
    cases hfill with
    | noCount hzero =>
      rw [hpool] at hzero
      exact ends_of_error hres ⟨hflag, fun hnull => (nomatch hnull), fun _ hpos => by omega⟩
    | refused hpos what dma halloc pas_list =>
      rw [hdma] at halloc
      refine ends_of_error hres ⟨hflag, fun hnull => (nomatch hnull), fun hgrants _ => ?_⟩
      -- A kernel that grants memory has not refused it.
      obtain ⟨m, dma', hok⟩ := hgrants.allocDmaMem _
      rw [hok] at halloc
      cases halloc

end L4Rdma.Q
