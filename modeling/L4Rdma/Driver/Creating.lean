import L4Rdma.Driver.Payload
import L4Rdma.Driver.Provide

/-!
# What the functions of the driver take

`provide_pages`, `create_eq`, `create_cq` and `create_wqc` as a whole, by the rules for `Takes`: how
many elements each of them takes of each pool when it returns. `create_cq` creates an event queue of
four entries for its completion queue, so it takes two UAR pages.
-/

namespace L4Rdma.Driver

open Lib Device

variable {δ Ctx : Type} {ctx ctx' : MLX5_Context δ} {l : Lens (MLX5_Context δ) (Q.State Ctx)}
  {p : PoolName} {qo : PA.ElementPtr} {size : ℕ} {D : CMD.HCA δ} {sure : Prop}

/-! ## Commands -/

/-- A payload of at most 128 words fits in a command. -/
theorem fits_of_le {payload : Local} {payload_length : ℕ} (hsize : payload.size = 128)
    (hle : payload_length ≤ 128) (uninit : ℕ → Word) :
    CMD.Fits (payload.toBuf uninit) payload_length 2 where
  payload_le := by
    unfold CMD.IMB_MAX_DATA CMD.MBB_MAX_COUNT
    omega
  payload_size := hle.trans_eq hsize.symm
  output_le := by
    unfold CMD.OMB_MAX_DATA CMD.MBB_MAX_COUNT
    omega

/-- A command takes nothing, and stops only when the device reports an error. -/
theorem takes_issue (D : CMD.HCA δ) (h : Sound ctx) {payload : Buf} {payload_length : ℕ}
    (hfits : CMD.Fits payload payload_length 2) (opcode : CMD.OPCODE) (op_mod : Word) :
    Takes D sure (fun _ => 0) (hcaLens.zoom (CMD.issue D opcode op_mod payload payload_length 2)) ctx
      fun _ _ => True := by
  obtain ⟨w, -, -, hidle, -, -, hissue⟩ := CMD.issue_cases D h.idle hfits opcode op_mod
  rcases hissue with hok | ⟨hnot, what, herr⟩
  · exact takes_of_ok (Lens.zoom_of_ok hok) (h.grew_hca hidle) trivial
  · exact takes_of_error h (Lens.zoom_of_error herr) (fun hnull => (nomatch hnull)) fun hD =>
      absurd (hD.1 _ _) hnot

/-- A command whose payload has fewer words than its length says is not issued. -/
theorem takes_overread (D : CMD.HCA δ) (h : Sound ctx) {payload : Buf} {payload_length : ℕ}
    (hsize : 2 ≤ payload.size) (hover : payload.size < payload_length)
    (hle : payload_length ≤ 2 + CMD.IMB_MAX_DATA) (hsure : ¬ sure) (opcode : CMD.OPCODE)
    {P : Word → MLX5_Context δ → Prop} :
    Takes D sure (fun _ => 0) (create D opcode payload payload_length) ctx P := by
  obtain ⟨a, hcreate⟩ := CMD.createCqe_overread hsize hover hle opcode 0x0 2 ctx.hca.args
  have hissue : CMD.issue D opcode 0x0 payload payload_length 2 ctx.hca =
      .error (.undefined .out_of_bounds) { ctx.hca with args := a } :=
    bind_of_error (Lens.zoom_of_error hcreate)
  exact takes_of_error h (bind_of_error (Lens.zoom_of_error hissue)) (fun hnull => (nomatch hnull))
    fun _ => hsure

/-! ## Creating queues -/

/-- An event queue of a size is found under its number. -/
def IndexedAt (ctx : MLX5_Context δ) (eq_number : Word) (size : ℕ) : Prop :=
  ∃ eq d, ctx.event_queue_pool.pool.data.index eq_number.toNat = some eq ∧
    ctx.event_queue_pool.heap.dataAt eq = some d ∧ d.id = eq_number ∧ d.size = size

/-- `create_eq` enters its queue in the index. A small queue is sure to be created when there is room
for it. -/
theorem takes_createEq_indexed (D : CMD.HCA δ) (h : Sound ctx) (size : ℕ) (type irq_num : Word) :
    Takes D (Small size type) (queueNeeds .event) (createEq D size type irq_num) ctx
      fun eq_number ctx' => IndexedAt ctx' eq_number size := by
  unfold createEq
  refine (takes_prepareEq D h size type irq_num).and_then ?_
  rintro ⟨eq, payload, payload_length⟩ ctx₁ hgrew ⟨hprep, -, hle⟩
  obtain ⟨d, -, -, hat, hsize, -⟩ := hprep.queue
  have hfits := fits_of_le hprep.payload_size hle ctx₁.uninit
  refine Takes.bind_of_ok (get_apply ctx₁) hgrew.sound.grew_zero ?_
  refine (takes_create D hgrew.sound .CREATE_EQ hfits).and_then ?_
  rintro eq_number ctx₂ hgrew₂ ⟨w, rfl⟩
  obtain ⟨ctx₃, hname, hgrew₃, hat₃, -, hindex⟩ :=
    eqLens_pool.nameQueue_ok hgrew₂.sound (d := d) hat eq_number
  have hindexed : IndexedAt ctx₃ eq_number size :=
    ⟨eq, { d with id := eq_number }, hindex, hat₃, rfl, hsize⟩
  exact takes_of_ok (bind_of_ok hname) hgrew₃ hindexed

/-- What `create_eq` takes. -/
theorem takes_createEq (D : CMD.HCA δ) (h : Sound ctx) (size : ℕ) (type irq_num : Word) :
    Takes D (Small size type) (queueNeeds .event) (createEq D size type irq_num) ctx
      fun _ _ => True :=
  (takes_createEq_indexed D h size type irq_num).mono id fun _ _ _ => trivial

/-- What `create_cq` takes: a page for the doorbell record, and what its two queues need. -/
def cqNeeds : PoolName → ℕ := fun p => memNeeds 1 p + (queueNeeds .event p + queueNeeds .compl p)

/-- `create_cq`. -/
theorem takes_createCq (D : CMD.HCA δ) (h : Sound ctx) (size : ℕ) :
    Takes D False cqNeeds (createCq D size) ctx fun _ _ => True := by
  unfold createCq
  -- First a memory page for the doorbell record is taken.
  refine (takes_allocPage D h).bind ?_
  rintro mp ctx₁ hgrew ⟨s, el, hctx, hel⟩
  have hderef : memLens.zoom (PA.derefElement (some mp)) ctx₁ = .ok el ctx₁ := by
    subst hctx
    exact Lens.zoom_of_ok (PA.derefElement_ok hel)
  refine Takes.bind_of_ok hderef hgrew.sound.grew_zero ?_
  -- Then an event queue of four entries, which is sure to be created.
  have hsmall : Small 4 Event.EVENT_TYPE_COMPLETION_EVENT := by decide
  refine ((takes_createEq D hgrew.sound 4 _ 0).mono (fun _ => hsmall) fun _ _ h => h).bind ?_
  rintro eq_number ctx₂ hgrew₂ -
  -- Then the completion queue itself, up to its payload.
  refine ((takes_prepareCq D hgrew₂.sound _ eq_number size).mono False.elim fun _ _ h => h).and_then ?_
  rintro ⟨cq, payload, payload_length⟩ ctx₃ hgrew₃ ⟨hprep, -⟩
  obtain ⟨d, -, -, hat, -⟩ := hprep.queue
  refine Takes.bind_of_ok (get_apply ctx₃) hgrew₃.sound.grew_zero ?_
  have hlength : payload_length = CQ.HEADER_SIZE + Q.pageCount size 64 * 2 := hprep.length
  have hfits := hprep.fits
  have hheader : CQ.HEADER_SIZE = 42 := rfl
  have hsize : (payload.toBuf ctx₃.uninit).size = 128 := hprep.payload_size
  rcases Nat.lt_or_ge 128 payload_length with hover | hle
  · -- The array on the stack has half of the room that the addresses need.
    have hmax : payload_length ≤ 2 + CMD.IMB_MAX_DATA := by
      unfold CMD.IMB_MAX_DATA CMD.MBB_MAX_COUNT
      omega
    refine Takes.and_then (P := fun _ _ => False) ?_ fun _ _ _ => False.elim
    exact takes_overread D hgrew₃.sound (by omega) (by omega) hmax id _
  -- The payload is inside of its array, and the queue gets its number.
  refine (takes_create D hgrew₃.sound .CREATE_CQ (fits_of_le hprep.payload_size hle _)).and_then ?_
  rintro cq_number ctx₄ hgrew₄ ⟨w, rfl⟩
  obtain ⟨ctx₅, hname, hgrew₅, -⟩ := cqLens_pool.nameQueue_ok hgrew₄.sound (d := d) hat cq_number
  exact takes_of_ok (bind_of_ok hname) hgrew₅ trivial

/-- What `create_wqc` takes: its queue, and a page for the doorbell record. -/
def wqNeeds : PoolName → ℕ := fun p => queueNeeds .work p + memNeeds 1 p

/-- `create_wqc`. It is sure to return where the logarithm of the number of bytes is a number. -/
theorem takes_createWqc (D : CMD.HCA δ) (h : Sound ctx) (size : ℕ) (wq_number : Word) :
    Takes D (0 < size * HCA_PAGE_SIZE % 2 ^ 64) wqNeeds (createWqc D size wq_number) ctx
      fun _ _ => True := by
  unfold createWqc
  -- The queue and its UAR page.
  refine (wqLens_pool.takes_allocQueue (by decide) D h size).bind ?_
  rintro wq ctx₁ hgrew ⟨e, hctx, halloc⟩
  obtain ⟨d, up, m, uar, hat, huar, -⟩ := halloc.data
  have hview : (queueEnv wqLens).view ctx₁ = e := by rw [hctx, wqLens_pool.view_set]
  rw [← hview] at hat huar
  obtain ⟨ctx₂, hname, hgrew₂, hat₂, huar₂, -⟩ := wqLens_pool.nameQueue_ok hgrew.sound hat wq_number
  rw [show ((queueEnv wqLens).view ctx₁).uar_page_pool = ctx₂.uar_page_pool from huar₂.symm] at huar
  refine Takes.bind_of_ok hname hgrew₂ ?_
  -- The memory page for the doorbell record.
  refine ((takes_allocPage D hgrew₂.sound).mono (fun _ => trivial) fun _ _ h => h).and_then ?_
  rintro mp ctx₃ hgrew₃ ⟨s, el, rfl, hel⟩
  have hderef : memLens.zoom (PA.derefElement (some mp)) (memLens.set s ctx₂) =
      .ok el (memLens.set s ctx₂) := Lens.zoom_of_ok (PA.derefElement_ok hel)
  refine Takes.bind_of_ok hderef hgrew₃.sound.grew_zero ?_
  -- Taking a memory page has no effect on the queue and its UAR page.
  obtain ⟨d₃, hat₃, hup⟩ : ∃ d₃, ((queueEnv wqLens).view (memLens.set s ctx₂)).queueAt wq = some d₃ ∧
      d₃.uarp = some up := ⟨_, hat₂, rfl⟩
  -- Writing the context of the queue takes nothing.
  obtain ⟨ctx₄, hstore, hgrew₄, hview₄⟩ := wqLens_pool.store_ok hgrew₃.sound hat₃ fun d =>
    { d with q_ctx.wqc := { d.q_ctx.wqc with type := 0, page_offset_and_lwm := 0 } }
  obtain ⟨d₄, hat₄, hup₄⟩ : ∃ d₄, ((queueEnv wqLens).view ctx₄).queueAt wq = some d₄ ∧
      d₄.uarp = some up := by
    rw [hview₄]
    exact ⟨_, Q.Env.queueAt_setQueue hat₃, hup⟩
  have huar₄ : ctx₄.uar_page_pool.heap.dataAt up = some uar :=
    (congrArg (fun e => e.uar_page_pool.heap.dataAt up) hview₄).trans huar
  refine Takes.bind_of_ok hstore hgrew₄ ?_
  -- A protection domain is allocated, which takes nothing either.
  have hempty : CMD.Fits (Buf.ofList []) 0 2 := by
    refine ⟨Nat.zero_le _, Nat.zero_le _, ?_⟩
    unfold CMD.OMB_MAX_DATA CMD.MBB_MAX_COUNT
    omega
  refine (takes_create D hgrew₄.sound .ALLOC_PD hempty).and_then ?_
  rintro pd ctx₅ hgrew₅ ⟨w, rfl⟩
  have hat₅ : ((queueEnv wqLens).view { ctx₄ with hca := w }).queueAt wq = some d₄ := hat₄
  refine Takes.bind_of_ok (wqLens_pool.uarIndex_ok hat₅ hup₄ huar₄) hgrew₅.sound.grew_zero ?_
  rcases Nat.eq_zero_or_pos (size * HCA_PAGE_SIZE % 2 ^ 64) with hzero | hpos
  · -- Zero has no logarithm that is a number.
    have hlog : (log2 (size * HCA_PAGE_SIZE % 2 ^ 64) : Exec (MLX5_Context δ) ℕ)
        { ctx₄ with hca := w } = .error (.undefined .bad_conversion) { ctx₄ with hca := w } := by
      unfold log2
      rw [if_pos hzero]
      rfl
    exact takes_of_error hgrew₅.sound (bind_of_error hlog) (fun hnull => (nomatch hnull)) fun _ hpos =>
      Nat.ne_of_gt hpos hzero
  · obtain ⟨ctx₆, hlast, hgrew₆, -⟩ := wqLens_pool.store_ok hgrew₅.sound hat₅ fun d =>
      { d with q_ctx.wqc := { d.q_ctx.wqc with
        pd := pd
        uar := BitVec.ofNat 32 uar.index
        dbr := pair (msb el.data.phys) (lsb el.data.phys)
        hw_counter := 0
        sw_counter := 0
        log_wq_sizes := BitVec.ofNat 32 (Nat.log2 (size * HCA_PAGE_SIZE % 2 ^ 64) % 2 ^ 8) <<< 0 &&&
          0x0000001f } }
    exact takes_of_ok ((bind_of_ok (log2_ok hpos _)).trans (bind_of_ok hlast)) hgrew₆ trivial

/-! ## Providing pages -/

variable {page_count i j count : ℕ} {b : Buf}

/-- Only the lower 31 bits of the number of pages count, since it is doubled. -/
theorem cmdCount_mod (page_count : ℕ) : cmdCount (page_count % 2 ^ 31) = cmdCount page_count := by
  have hwords : page_count % 2 ^ 31 * 2 % 2 ^ 32 = page_count * 2 % 2 ^ 32 := by omega
  unfold cmdCount
  rw [hwords]

/-- The pages of a batch, of a page count without its sign bit. -/
theorem payloadPageCount_mod (page_count i : ℕ) :
    payloadPageCount (page_count % 2 ^ 31) i = payloadPageCount page_count i := by
  have hwords : page_count % 2 ^ 31 * 2 % 2 ^ 32 = page_count * 2 % 2 ^ 32 := by omega
  unfold payloadPageCount
  rw [cmdCount_mod, hwords]

/-- One round of the inner loop takes a page. -/
theorem takes_providePage (D : CMD.HCA δ) (h : Sound ctx) (hj : j < 3200)
    (hsize : b.size = IMB_MAX_PAGE_PAYLOAD) :
    Takes D True (memNeeds 1) (providePage j b) ctx fun b' _ => b'.size = IMB_MAX_PAGE_PAYLOAD := by
  unfold providePage
  refine (takes_allocPage D h).and_then ?_
  rintro mp ctx₁ hgrew ⟨s, el, rfl, hel⟩
  obtain ⟨blk, hblk, rfl⟩ := PA.Heap.exists_block_of_elem hel
  have hderef : memLens.zoom (PA.deref (some mp.block)) (memLens.set s ctx) =
      .ok blk (memLens.set s ctx) := Lens.zoom_of_ok (PA.deref_of_block hblk)
  have hmax : IMB_MAX_PAGE_PAYLOAD = 6402 := rfl
  refine takes_of_ok ((bind_of_ok hderef).trans ((bind_of_ok (Buf.write_of_lt ?_ _ _)).trans
    (Buf.write_of_lt ?_ _ _))) hgrew.sound.grew_zero hsize
  · omega
  · show 2 + j * 2 + 1 < b.size
    omega

/-- The inner loop takes the pages of its command. -/
theorem takes_providePage_loop (D : CMD.HCA δ) (h : Sound ctx) (hcount : count ≤ 3200)
    (hsize : b.size = IMB_MAX_PAGE_PAYLOAD) :
    Takes D True (memNeeds count) (forRange count b providePage) ctx
      fun b' _ => b'.size = IMB_MAX_PAGE_PAYLOAD := by
  refine takes_forRange memNeeds (fun _ => memNeeds 1) (fun _ b' _ => Buf.size b' = IMB_MAX_PAGE_PAYLOAD)
    h ?_ ?_ ?_ hsize fun j b' ctx' hj hsound hb' => takes_providePage D hsound (by omega) hb'
  · exact fun p => ite_self 0
  · intro j _ p
    unfold memNeeds
    split_ifs <;> rfl
  · intro j hj p
    unfold memNeeds
    split_ifs
    · exact hj
    · exact Nat.le_refl 0

/-- One round of the outer loop takes the pages of its command, and issues it. -/
theorem takes_provideBatch (D : CMD.HCA δ) (h : Sound ctx) (hsize : b.size = IMB_MAX_PAGE_PAYLOAD) :
    Takes D True (memNeeds (payloadPageCount page_count i)) (provideBatch D page_count i b) ctx
      fun b' _ => b'.size = IMB_MAX_PAGE_PAYLOAD := by
  have hle := payloadPageCount_le page_count i
  have hmax : IMB_MAX_PAGE_PAYLOAD = 6402 := rfl
  unfold provideBatch
  generalize payloadPageCount page_count i = count at hle
  have hlarge : 1 < b.size := by omega
  refine Takes.bind_of_ok (Buf.write_of_lt (Nat.lt_of_succ_lt hlarge) _ ctx) h.grew_zero ?_
  refine Takes.bind_of_ok (Buf.write_of_lt (by exact hlarge) _ ctx) h.grew_zero ?_
  refine (takes_providePage_loop D h hle (by exact hsize)).and_then ?_
  rintro b' ctx₁ hgrew hb'
  have hfits : CMD.Fits b' (2 + count * 2) 2 := by
    refine ⟨?_, by omega, ?_⟩
    · unfold CMD.IMB_MAX_DATA CMD.MBB_MAX_COUNT
      omega
    · unfold CMD.OMB_MAX_DATA CMD.MBB_MAX_COUNT
      omega
  refine (takes_issue D hgrew.sound hfits .MANAGE_PAGES 0x1).and_then ?_
  rintro slot ctx₂ hgrew₂ -
  exact takes_of_ok (pure_apply b' ctx₂) hgrew₂.sound.grew_zero hb'

/-- `provide_pages` takes as many pages as it is asked for, up to the lower 31 bits of their
number. -/
theorem takes_providePages (D : CMD.HCA δ) (h : Sound ctx) (page_count : ℕ) :
    Takes D True (memNeeds (page_count % 2 ^ 31)) (providePages D page_count) ctx fun _ _ => True := by
  have hP : page_count % 2 ^ 31 < 2 ^ 31 := Nat.mod_lt _ (by decide)
  have hcount := cmdCount_mod page_count
  -- All batches together are as many pages as are asked for.
  have htotal : memNeeds (page_count % 2 ^ 31) =
      memNeeds (min (cmdCount page_count * 3200) (page_count % 2 ^ 31)) := by
    rw [← hcount, min_cmdCount hP]
  unfold providePages
  refine Takes.bind_of_ok (get_apply ctx) h.grew_zero ?_
  refine Takes.and_then (P := fun b' _ => Buf.size b' = IMB_MAX_PAGE_PAYLOAD) ?_ fun _ ctx' hgrew _ =>
    takes_of_ok (pure_apply () ctx') hgrew.sound.grew_zero trivial
  rw [htotal]
  refine takes_forRange (fun i => memNeeds (min (i * 3200) (page_count % 2 ^ 31)))
    (fun i => memNeeds (payloadPageCount page_count i)) (fun _ b' _ => Buf.size b' = IMB_MAX_PAGE_PAYLOAD)
    h ?_ ?_ ?_ rfl fun i b' ctx' _ hsound hb' => takes_provideBatch D hsound hb'
  · -- Before the first batch nothing has been taken.
    intro p
    unfold memNeeds
    rw [Nat.zero_mul, Nat.zero_min, ite_self]
  · -- A batch takes the pages between the batches before it and those up to it.
    intro i hi p
    rw [← hcount] at hi
    have hsum := min_add_payloadPageCount hP hi
    rw [payloadPageCount_mod] at hsum
    unfold memNeeds
    split_ifs
    · exact hsum.symm
    · rfl
  · -- No batch goes beyond the number of pages.
    intro i hi p
    unfold memNeeds
    split_ifs
    · exact Nat.le_min.mpr ⟨by omega, by omega⟩
    · exact Nat.le_refl 0

end L4Rdma.Driver
