import L4Rdma.Driver.Provide

/-!
# Page requests

`page_request_handler` reads a signed number of pages from an event. When it is positive, the device
asks for pages, and they are provided in commands that fit the buffers, however many there are. When
it is not, the device gives pages back, and `reclaim_pages` asks for all of them in one command. Its
output has two words for each page, and the buffers have room for 3200 pages. So the handler stays
inside its buffers exactly for the counts from -3200 on (`staysInside_iff`).
-/

namespace L4Rdma

open Lib Device

/-- An access outside of a buffer, or a signed number that does not fit its type. -/
def OutOfBuffer (e : Stop) : Prop := e = .undefined .out_of_bounds ∨ e = .undefined .signed_overflow

/-- An exception is no access outside of a buffer. -/
theorem not_outOfBuffer_thrown (what : String) : ¬ OutOfBuffer (.thrown what) := by
  rintro (h | h) <;> cases h

/-! ## Pools -/

namespace PA

variable {W PD BD ED : Type} {k : Kind W PD BD ED}

/-- What only throws has no access outside of a buffer. -/
theorem avoids_of_thrown {σ α : Type} {x : Exec σ α}
    (h : Avoids (fun e => ∀ m, e ≠ .thrown m) x) : Avoids OutOfBuffer x := by
  intro s e s' hx hbad
  refine h s e s' hx fun m hm => ?_
  rw [hm] at hbad
  exact not_outOfBuffer_thrown m hbad

/-- Reading a block stays inside of all buffers. -/
theorem avoids_deref (b : Option BlockPtr) :
    Avoids OutOfBuffer (deref b : Exec (State W PD BD ED) (Block BD ED)) := by
  intro s e s' h
  unfold deref at h
  split at h
  · cases h
    rintro (h | h) <;> cases h
  · split at h
    · cases h
      rintro (h | h) <;> cases h
    · cases h

/-- So does writing to a block. -/
theorem avoids_store (b : Option BlockPtr) (f : Block BD ED → Block BD ED) :
    Avoids OutOfBuffer (store b f : Exec (State W PD BD ED) Unit) := by
  intro s e s' h
  unfold store at h
  split at h
  · cases h
    rintro (h | h) <;> cases h
  · split at h
    · cases h
      rintro (h | h) <;> cases h
    · cases h

/-- So does writing to the pool's own fields. -/
theorem avoids_modifyPool (f : Pool PD → Pool PD) :
    Avoids OutOfBuffer (modifyPool f : Exec (State W PD BD ED) Unit) :=
  avoids_modify _

/-- `add_block_to_pool` stays inside of all buffers. -/
theorem avoids_addBlockToPool (b : BlockPtr) :
    Avoids OutOfBuffer (addBlockToPool b : Exec (State W PD BD ED) Unit) := by
  unfold addBlockToPool
  refine avoids_get.bind fun s => ?_
  dsimp only
  split
  · exact (avoids_modifyPool _).bind fun _ => avoids_modifyPool _
  · exact (avoids_store _ _).bind fun _ => (avoids_store _ _).bind fun _ =>
      (avoids_modifyPool _).bind fun _ => avoids_modifyPool _

/-- `alloc_block` stays inside of all buffers. -/
theorem avoids_allocBlock : Avoids OutOfBuffer (allocBlock k) := by
  have hcreate : Avoids OutOfBuffer (createBlock : Exec (State W PD BD ED) BlockPtr) := by
    intro s e s' h
    cases h
  unfold allocBlock
  refine hcreate.bind fun b => avoids_get.bind fun s => ?_
  refine (avoids_of_thrown (k.setup_avoids s.pool)).zoom.bind fun x => ?_
  exact (avoids_store _ _).bind fun _ => avoids_addBlockToPool b

/-- The walk over the blocks stays inside of all buffers. -/
theorem avoids_allocPageFrom (fuel : ℕ) :
    ∀ b, Avoids OutOfBuffer (allocPageFrom k fuel b) := by
  induction fuel with
  | zero =>
    intro b
    exact avoids_throw (by rintro (h | h) <;> cases h)
  | succ fuel ih =>
    intro b
    unfold allocPageFrom
    refine (avoids_deref b).bind fun blk => avoids_get.bind fun s => ?_
    dsimp only
    split
    · exact (avoids_modifyPool _).bind fun _ => (avoids_store _ _).bind fun _ =>
        (avoids_store _ _).bind fun _ => avoids_pure _
    · split_ifs
      · exact avoids_allocBlock.bind fun _ => (avoids_deref _).bind fun blk' => ih blk'.next
      · exact (avoids_deref _).bind fun blk' => ih blk'.next

/-- `allocPage` does not access a block outside of its elements. -/
theorem avoids_allocPage : Avoids OutOfBuffer (allocPage k) := by
  unfold allocPage
  refine avoids_get.bind fun s => avoids_ite (fun _ => avoids_pure _) fun _ => ?_
  split_ifs
  · exact avoids_allocBlock.bind fun _ => avoids_get.bind fun s' =>
      (avoids_allocPageFrom _ _).bind fun _ => avoids_pure _
  · exact avoids_get.bind fun s' => (avoids_allocPageFrom _ _).bind fun _ => avoids_pure _

/-- `remove_block_from_pool` stays inside of all buffers. -/
theorem avoids_removeBlockFromPool (b : BlockPtr) :
    Avoids OutOfBuffer (removeBlockFromPool b : Exec (State W PD BD ED) Unit) := by
  unfold removeBlockFromPool
  refine (avoids_deref _).bind fun blk => ?_
  split <;> split
  · exact (avoids_modifyPool _).bind fun _ => avoids_modifyPool _
  · exact (avoids_modifyPool _).bind fun _ => avoids_modifyPool _
  · exact (avoids_store _ _).bind fun _ => (avoids_modifyPool _).bind fun _ => avoids_modifyPool _
  · exact (avoids_store _ _).bind fun _ => (avoids_store _ _).bind fun _ => avoids_modifyPool _

/-- `free_block` stays inside of all buffers. -/
theorem avoids_freeBlock (b : BlockPtr) : Avoids OutOfBuffer (freeBlock k b) := by
  unfold freeBlock destroyBlock
  refine (avoids_removeBlockFromPool b).bind fun _ => (avoids_deref _).bind fun blk => ?_
  refine avoids_get.bind fun s => ?_
  refine (avoids_of_thrown (k.release_avoids s.pool blk.data)).zoom.bind fun _ => ?_
  exact (avoids_deref _).bind fun _ => avoids_modify _

/-- `freePage` does not access a block outside of its elements. -/
theorem avoids_freePage (e : ElementPtr) : Avoids OutOfBuffer (freePage k e) := by
  unfold freePage
  refine (avoids_deref _).bind fun blk => (avoids_modifyPool _).bind fun _ => ?_
  refine (avoids_store _ _).bind fun _ => (avoids_store _ _).bind fun _ => ?_
  refine (avoids_deref _).bind fun blk' => ?_
  exact avoids_ite (fun _ => avoids_freeBlock _) fun _ => avoids_pure _

end PA

namespace MEM

/-- `alloc_page` stays inside of all buffers. -/
theorem avoids_allocPage : Avoids OutOfBuffer allocPage := by
  unfold allocPage
  refine PA.avoids_allocPage.bind fun oe => ?_
  split
  · exact avoids_throw (by rintro (h | h) <;> cases h)
  · exact (PA.avoids_deref _).bind fun blk => (PA.avoids_modifyPool _).bind fun _ => avoids_pure _

/-- `free_page` stays inside of all buffers. -/
theorem avoids_freePage (phys : ℕ) : Avoids OutOfBuffer (freePage phys) := by
  unfold freePage
  refine avoids_get.bind fun s => (PA.avoids_modifyPool _).bind fun _ => ?_
  split
  · exact avoids_throw (by rintro (h | h) <;> cases h)
  · exact PA.avoids_freePage _

end MEM

namespace Driver

variable {δ : Type} {ctx ctx' : MLX5_Context δ} {page_count i j : ℕ} {b : Buf}

/-- Nothing is accessed outside of a buffer. -/
def Inside (e : Stop) (_ : MLX5_Context δ) : Prop := ¬ OutOfBuffer e

/-! ## Providing any number of pages -/

/-- What the loops of `provide_pages` keep, whatever the pool does. -/
def Sized (ctx₀ : MLX5_Context δ) (b : Buf) (ctx : MLX5_Context δ) : Prop :=
  b.size = IMB_MAX_PAGE_PAYLOAD ∧ ctx.hca = ctx₀.hca

/-- A round of the inner loop writes inside of the payload. -/
theorem providePage_inside {ctx₀ : MLX5_Context δ} (hj : j < 3200) (h : Sized ctx₀ b ctx) :
    Ends (providePage j b) ctx (Sized ctx₀) Inside := by
  obtain ⟨hsize, hhca⟩ := h
  have hsize' : b.size = 2 + 128 * 50 := hsize
  unfold providePage
  refine Ends.bind ((MEM.avoids_allocPage.ends _).zoom.mono (fun _ _ h => h) ?_) ?_
  · rintro e ctx' ⟨-, -, he⟩
    exact he
  rintro mp ctx' ⟨s, rfl, -⟩
  refine Ends.bind (((PA.avoids_deref (some mp.block)).ends _).zoom.mono (fun _ _ h => h) ?_) ?_
  · rintro e ctx' ⟨-, -, he⟩
    exact he
  rintro blk ctx' ⟨s', rfl, -⟩
  refine Ends.bind_of_ok (Buf.write_of_lt (by omega) _ _) ?_
  have hlt : 2 + j * 2 + 1 < b.size := by omega
  exact ends_of_ok (Buf.write_of_lt (by exact hlt) _ _) ⟨hsize, hhca⟩

/-- The invariant of the outer loop. -/
def Steady (b : Buf) (ctx : MLX5_Context δ) : Prop :=
  b.size = IMB_MAX_PAGE_PAYLOAD ∧ CMD.Idle ctx.hca.args

/-- A round of the outer loop does as well. -/
theorem provideBatch_inside (D : CMD.HCA δ) (h : Steady b ctx) :
    Ends (provideBatch D page_count i b) ctx Steady Inside := by
  obtain ⟨hsize, hidle⟩ := h
  have hle := payloadPageCount_le page_count i
  unfold provideBatch
  generalize payloadPageCount page_count i = count at hle
  have hsize' : b.size = 2 + 128 * 50 := hsize
  have hlarge : 1 < b.size := by omega
  refine Ends.bind_of_ok (Buf.write_of_lt (Nat.lt_of_succ_lt hlarge) _ ctx) ?_
  refine Ends.bind_of_ok (Buf.write_of_lt (by exact hlarge) _ ctx) ?_
  refine Ends.bind (ends_forRange (fun _ => Sized ctx) ⟨hsize, rfl⟩ fun j b' ctx' hj h =>
    providePage_inside (by omega) h) ?_
  rintro b' ctx' ⟨hb', hhca⟩
  have hfits : CMD.Fits b' (2 + count * 2) 2 := by
    have hb'' : b'.size = 2 + 128 * 50 := hb'
    refine ⟨?_, ?_, ?_⟩
    · unfold CMD.IMB_MAX_DATA CMD.MBB_MAX_COUNT
      omega
    · omega
    · norm_num
  obtain ⟨w, -, -, hidle', -, -, hok | ⟨-, what, herr⟩⟩ :=
    CMD.issue_cases D (hhca ▸ hidle) hfits .MANAGE_PAGES 0x1
  · exact ends_of_ok (bind_of_ok (Lens.zoom_of_ok hok)) ⟨hb', hidle'⟩
  · exact ends_of_error (bind_of_error (Lens.zoom_of_error herr)) (not_outOfBuffer_thrown what)

/-- `provide_pages` stays inside its buffers for every number of pages. -/
theorem providePages_inside (D : CMD.HCA δ) (hidle : CMD.Idle ctx.hca.args) :
    Ends (providePages D page_count) ctx (fun _ _ => True) Inside := by
  have hround : ∀ i b ctx', i < cmdCount page_count → Steady b ctx' →
      Ends (provideBatch D page_count i b) ctx' Steady Inside := fun i b ctx' _ h =>
    provideBatch_inside D h
  have hloop := ends_forRange (fun _ => Steady) (s := ctx)
    (a := ⟨IMB_MAX_PAGE_PAYLOAD, ctx.uninit⟩) ⟨rfl, hidle⟩ hround
  unfold providePages
  exact Ends.bind_of_ok (get_apply ctx) (Ends.bind hloop fun _ _ _ => ends_pure trivial)

/-! ## Reclaiming pages -/

/-- The length of the output has two words for each page, as long as the signed numbers fit. -/
theorem reclaimOutputLength_ok {n : ℤ} (hpos : 0 ≤ n) (hlt : n < 2 ^ 29) (ctx : MLX5_Context δ) :
    reclaimOutputLength n ctx = .ok (2 + 2 * n.toNat) ctx := by
  have hdouble : (int32 (n * 2) : Exec (MLX5_Context δ) ℤ) ctx = .ok (n * 2) ctx := by
    rw [int32, if_pos (by omega)]
    rfl
  have hsum : (int32 (2 + n * 2) : Exec (MLX5_Context δ) ℤ) ctx = .ok (2 + n * 2) ctx := by
    rw [int32, if_pos (by omega)]
    rfl
  have hword : (BitVec.ofInt 32 (2 + n * 2)).toNat = 2 + 2 * n.toNat := by
    rw [BitVec.toNat_ofInt]
    omega
  unfold reclaimOutputLength
  rw [bind_of_ok hdouble, bind_of_ok hsum, hword]
  rfl

/-- The request for a number of pages. -/
def reclaimCommand (page_count : ℤ) : CMD.Command where
  opcode := CMD.OPCODE.MANAGE_PAGES.value
  op_mod := 2
  payload := [0, BitVec.ofInt 32 page_count]
  output_length := 2 + 2 * page_count.toNat

/-- The request is the command that `reclaim_pages` issues. -/
theorem command_reclaim (n : ℤ) :
    CMD.command .MANAGE_PAGES 0x2 (Buf.ofList [0, BitVec.ofInt 32 n]) 2 (2 + 2 * n.toNat) =
      reclaimCommand n := rfl

/-- A request for at most 3200 pages is within the limits. -/
theorem fits_reclaim {n : ℤ} (hn : n ≤ 3200) :
    CMD.Fits (Buf.ofList [0, BitVec.ofInt 32 n]) 2 (2 + 2 * n.toNat) := by
  refine ⟨by norm_num, Nat.le_refl 2, ?_⟩
  unfold CMD.OMB_MAX_DATA CMD.MBB_MAX_COUNT
  omega

/-- The device lists at most as many pages as are asked for. -/
def ListsAtMost (D : CMD.HCA δ) : Prop :=
  ∀ d (n : ℤ), 0 ≤ n → ((D.exec d (reclaimCommand n)).2.output 0).toInt ≤ n

/-- One round stays inside the output. -/
theorem reclaimPage_inside {output : Buf} {u : Unit} (hsize : output.size = CMD.OMB_MAX_DATA + 2)
    (hi : i < 3200) : Ends (reclaimPage output i u) ctx (fun _ _ => True) Inside := by
  have hsize' : output.size = 128 * 50 + 2 := hsize
  unfold reclaimPage
  refine Ends.bind_of_ok (Buf.read_of_lt (by omega) ctx) ?_
  refine Ends.bind_of_ok (Buf.read_of_lt (by omega) ctx) ?_
  refine ((MEM.avoids_freePage _).ends _).zoom.mono (fun _ _ _ => trivial) ?_
  rintro e ctx' ⟨-, -, he⟩
  exact he

/-- `reclaim_pages` stays inside its buffers when it is called for at most 3200 pages. -/
theorem reclaimPages_inside (D : CMD.HCA δ) (hD : ListsAtMost D) (hidle : CMD.Idle ctx.hca.args)
    {n : ℤ} (hpos : 0 ≤ n) (hn : n ≤ 3200) :
    Ends (reclaimPages D n) ctx (fun _ _ => True) Inside := by
  have hlength := reclaimOutputLength_ok hpos (by omega) ctx
  obtain ⟨w, -, -, -, -, hanswered, hissue⟩ :=
    CMD.issue_cases D hidle (fits_reclaim hn) .MANAGE_PAGES 0x2
  rw [command_reclaim] at hanswered
  unfold reclaimPages
  refine Ends.bind_of_ok hlength (Ends.bind_of_ok (get_apply ctx) ?_)
  rcases hissue with hok | ⟨-, what, herr⟩
  · have houtput : 2 + 2 * n.toNat ≤ CMD.OMB_MAX_DATA + 2 := by
      unfold CMD.OMB_MAX_DATA CMD.MBB_MAX_COUNT
      omega
    have hroom : 2 + 2 * n.toNat ≤ Buf.size ⟨CMD.OMB_MAX_DATA + 2, ctx.uninit⟩ := houtput
    obtain ⟨output, hget, hsize, -⟩ := CMD.getCmdOutput_ok hanswered (by omega) hroom
    have hcount : (ioread32be ((w.args.cqe ctx.hca.args.cq.head).cod.output 0)).toInt ≤ n := by
      rw [hanswered.inline 0 (Nat.lt_of_lt_of_le Nat.zero_lt_two (Nat.le_add_right 2 _))]
      exact hD _ n hpos
    refine Ends.bind_of_ok (Lens.zoom_of_ok hok) (Ends.bind_of_ok (get_apply _) ?_)
    refine Ends.bind_of_ok (Lens.zoom_of_ok (by exact hget)) ?_
    refine Ends.bind (ends_forRange (fun _ _ _ => True) trivial fun i u ctx' hi _ => ?_)
      fun _ _ _ => ends_pure trivial
    have hlt : i < n.toNat := Nat.lt_of_lt_of_le hi (Int.toNat_le_toNat hcount)
    exact reclaimPage_inside hsize (by omega)
  · exact ends_of_error (bind_of_error (Lens.zoom_of_error herr)) (not_outOfBuffer_thrown what)

/-- `reclaim_pages` goes outside of the output mailbox when it is called for more pages, as long as
the lengths do not wrap. -/
theorem reclaimPages_error (D : CMD.HCA δ) (hidle : CMD.Idle ctx.hca.args) {n : ℤ} (hn : 3200 < n)
    (hlt : n < 2 ^ 29 - 2) :
    ∃ ctx', reclaimPages D n ctx = .error (.undefined .out_of_bounds) ctx' := by
  have hlength := reclaimOutputLength_ok (n := n) (by omega) (by omega) ctx
  have hlong : 2 + CMD.OMB_MAX_DATA < 2 + 2 * n.toNat := by
    unfold CMD.OMB_MAX_DATA CMD.MBB_MAX_COUNT
    omega
  have hfits : CMD.Fits (Buf.ofList [0, BitVec.ofInt 32 n]) 2 0 :=
    ⟨by norm_num, Nat.le_refl 2, by norm_num⟩
  obtain ⟨a, hcreate⟩ :=
    CMD.createCqe_error hidle.toReady hfits hlong (by omega) .MANAGE_PAGES 0x2
  have hissue := CMD.issue_error D hcreate
  unfold reclaimPages
  exact ⟨_, (bind_of_ok hlength).trans ((bind_of_ok (get_apply ctx)).trans
    (bind_of_error (Lens.zoom_of_error (by exact hissue))))⟩

/-! ## The handler -/

/-- The lengths that are computed for the commands fit into 32 bits: the number of words, and the
number of bytes that `create_cqe` makes of it. -/
def LengthFits (words : ℕ) : Prop := words < 2 ^ 32 ∧ (words + 2) * 4 < 2 ^ 32

/-- The lengths of the commands for a page count: of the payloads with the pages to be provided, or
of the output with the pages to be reclaimed. -/
def LengthsFit (page_count : ℤ) : Prop :=
  if page_count > 0 then ∀ i, i < cmdCount page_count.toNat →
    LengthFits (2 + payloadPageCount page_count.toNat i * 2)
  else LengthFits (2 + 2 * (-page_count).toNat)

/-- The handler's commands for an event stay inside their buffers, and their lengths do not wrap. -/
def StaysInside (D : CMD.HCA δ) (payload : Event.Payload) (ctx : MLX5_Context δ) : Prop :=
  Ends (handlePageRequest D payload) ctx (fun _ _ => True) Inside ∧ LengthsFit (payload 1).toInt

/-- The handler stays inside its buffers exactly when at most 3200 pages are given back. -/
theorem staysInside_iff (D : CMD.HCA δ) (hD : ListsAtMost D) (payload : Event.Payload)
    (ctx : MLX5_Context δ) (hidle : CMD.Idle ctx.hca.args) :
    StaysInside D payload ctx ↔ -3200 ≤ (payload 1).toInt := by
  have hle : -2 ^ 31 ≤ (payload 1).toInt := BitVec.le_toInt _
  unfold StaysInside LengthsFit handlePageRequest
  by_cases hpos : (payload 1).toInt > 0
  · -- The device asks for pages.
    rw [if_pos hpos, if_pos hpos]
    refine ⟨fun _ => by omega, fun _ => ⟨providePages_inside D hidle, fun i _ => ?_⟩⟩
    have hcount := payloadPageCount_le (payload 1).toInt.toNat i
    exact ⟨by omega, by omega⟩
  · -- The device gives pages back.
    rw [if_neg hpos, if_neg hpos]
    generalize hn : -(payload 1).toInt = n
    -- The absolute value is the number of pages, unless there is no such number of 32 bits.
    have habs : n < 2 ^ 31 → (abs (payload 1).toInt : Exec (MLX5_Context δ) ℤ) ctx = .ok n ctx := by
      intro hlt
      unfold abs int32
      split_ifs
      · rw [hn]
        rfl
      · omega
      · rw [show (payload 1).toInt = n by omega]
        rfl
    constructor
    · rintro ⟨hends, -, hfits⟩
      -- For more pages the command is out of bounds.
      by_contra hlow
      obtain ⟨ctx', herr⟩ := reclaimPages_error D hidle (n := n) (by omega) (by omega)
      refine hends.2 (.undefined .out_of_bounds) ctx' ?_ (.inl rfl)
      exact (bind_of_ok (habs (by omega))).trans (bind_of_error herr)
    · intro hlow
      refine ⟨Ends.bind_of_ok (habs (by omega)) ?_, by omega, by omega⟩
      exact (reclaimPages_inside D hD hidle (by omega) (by omega)).bind fun _ _ _ =>
        ends_pure trivial

/-- A device that says nothing lists no pages. -/
theorem quiet_listsAtMost : ListsAtMost CMD.quiet := fun _ _ hn => hn

/-- An event that gives back one page more than the output has room for. -/
def tooMany : Event.Payload := fun _ => BitVec.ofInt 32 (-3201)

/-- The chain of the output mailbox for 3201 pages has a block that the mailbox does not have. -/
theorem tooMany_not_staysInside :
    ListsAtMost CMD.quiet ∧ ¬ StaysInside CMD.quiet tooMany (initContext ()) := by
  refine ⟨quiet_listsAtMost, ?_⟩
  rintro ⟨hends, -⟩
  obtain ⟨ctx', herr⟩ := reclaimPages_error CMD.quiet (initContext_idle ()) (n := 3201)
    (by norm_num) (by norm_num)
  refine hends.2 (.undefined .out_of_bounds) ctx' ?_ (.inl rfl)
  have habs : (abs (tooMany 1).toInt : Exec (MLX5_Context Unit) ℤ) (initContext ()) =
      .ok 3201 (initContext ()) := rfl
  exact (bind_of_ok habs).trans (bind_of_error herr)

/-- A device that asks for a page is within the condition, and one that gives 3201 pages back is
not. -/
theorem quiet_staysInside_iff :
    (StaysInside CMD.quiet (fun _ => 1) (initContext ()) ↔ -3200 ≤ (1 : Word).toInt) ∧
      (StaysInside CMD.quiet tooMany (initContext ()) ↔ -3200 ≤ (tooMany 1).toInt) :=
  ⟨staysInside_iff CMD.quiet quiet_listsAtMost (fun _ => 1) (initContext ()) (initContext_idle ()),
    staysInside_iff CMD.quiet quiet_listsAtMost tooMany (initContext ()) (initContext_idle ())⟩

end Driver

end L4Rdma
