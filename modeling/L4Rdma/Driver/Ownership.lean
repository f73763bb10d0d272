import L4Rdma.Driver.Overrun

/-!
# The marks of a new event queue

`init_eq` in `server/src/event.cc` is to mark all entries of a new event queue as owned by the device.
Its loop ends one entry early, so the last entry keeps what the memory contained before, and for a queue
without entries the bound of the loop wraps around. `initsAll_iff` says exactly when the marks come out
right.
-/

namespace L4Rdma.Driver

open Lib

variable {δ : Type} {ctx ctx' : MLX5_Context δ} {size : ℕ} {eq : PA.ElementPtr}
  {d : Q.ED Event.EQ_CTX}

/-- `eqe_owned_by_hw` on a queue with its head at a slot. The slot has to be in the queue's memory. -/
def ownedAtHead (eq : PA.ElementPtr) (head : ℕ) : Exec (MLX5_Context δ) Bool := do
  let el ← eqLens.zoom (PA.derefElement (some eq))
  let ctx ← get
  doIf (memoryBytes ctx.mem_page_pool.world el.data.dma_mem < (head + 1) * Event.EQE_BYTES)
    (throw (.undefined .out_of_bounds))
  return Event.eqeOwnedByHw ⟨{ el.data.toQueue with head := head }, ctx.eqe eq⟩

/-- `init_eq` returns, all slots of the queue are owned by the device then, and nothing but their marks
has changed. -/
def InitsAll (ctx : MLX5_Context δ) (eq : PA.ElementPtr) (size : ℕ) : Prop :=
  ∃ eqe, initEventQueue eq ctx = .ok () { ctx with eqe := eqe } ∧
    (∀ i < size, ownedAtHead eq i { ctx with eqe := eqe } = .ok true { ctx with eqe := eqe }) ∧
    ∀ eq' i, (eqe eq' i).data = (ctx.eqe eq' i).data ∧
      (¬ (eq' = eq ∧ i < size) → eqe eq' i = ctx.eqe eq' i)

/-- A slot is owned by the device when it is in the memory and has the mark. -/
theorem ownedAtHead_iff (hat : ((queueEnv eqLens).view ctx).queueAt eq = some d) (i : ℕ) :
    ownedAtHead eq i ctx = .ok true ctx ↔
      (i + 1) * Event.EQE_BYTES ≤ memoryBytes ctx.mem_page_pool.world d.dma_mem ∧
        (ctx.eqe eq i).owned = true := by
  obtain ⟨el, hderef, rfl⟩ := eqLens_pool.deref_ok hat
  have hrun : ownedAtHead eq i ctx = _ := (bind_of_ok hderef).trans (get_bind _ _)
  dsimp only at hrun
  by_cases hover : memoryBytes ctx.mem_page_pool.world el.data.dma_mem < (i + 1) * Event.EQE_BYTES
  · have hthrow : ownedAtHead eq i ctx = .error (.undefined .out_of_bounds) ctx := by
      rw [hrun, doIf_of_pos hover]
      rfl
    rw [hthrow]
    exact ⟨fun hok => (nomatch hok), fun hboth => absurd hboth.1 (Nat.not_le_of_lt hover)⟩
  · have hok : ownedAtHead eq i ctx = .ok (ctx.eqe eq i).owned ctx := by
      rw [hrun]
      exact bind_of_ok (doIf_of_neg hover _ _)
    rw [hok]
    constructor
    · intro hres
      injection hres with howned
      exact ⟨Nat.le_of_not_lt hover, howned⟩
    · rintro ⟨-, howned⟩
      rw [howned]

/-- The entries of the queue are marked. -/
theorem withMarks_self (ctx : MLX5_Context δ) (eq : PA.ElementPtr) (n : ℕ) :
    (withMarks ctx eq n).eqe eq = Event.marked n (ctx.eqe eq) :=
  Function.update_self eq _ _

/-- Those of the other queues stay as they are. -/
theorem withMarks_of_ne {eq' : PA.ElementPtr} (h : eq' ≠ eq) (n : ℕ) :
    (withMarks ctx eq n).eqe eq' = ctx.eqe eq' :=
  Function.update_of_ne h _ _

/-- Marking the first entries of a queue leaves everything else. -/
theorem withMarks_frame (ctx : MLX5_Context δ) (eq : PA.ElementPtr) {n size : ℕ} (hle : n ≤ size)
    (eq' : PA.ElementPtr) (i : ℕ) :
    ((withMarks ctx eq n).eqe eq' i).data = (ctx.eqe eq' i).data ∧
      (¬ (eq' = eq ∧ i < size) → (withMarks ctx eq n).eqe eq' i = ctx.eqe eq' i) := by
  by_cases hsame : eq' = eq
  · rw [hsame, withMarks_self]
    refine ⟨Event.data_marked n i _, fun hnot => ?_⟩
    have hge : ¬ i < n := fun hlt => hnot ⟨rfl, Nat.lt_of_lt_of_le hlt hle⟩
    exact if_neg hge
  · rw [withMarks_of_ne hsame]
    exact ⟨rfl, fun _ => rfl⟩

/-- What a size asks for in superpages is a number of 64 bits. -/
theorem superpages_lt {r : MEM.L4Re} (hsize : size < 2 ^ 64) : r.superpages size < 2 ^ 64 := by
  unfold MEM.L4Re.superpages
  dsimp only
  split_ifs
  · exact Nat.mod_lt _ (Nat.two_pow_pos 64)
  · exact hsize

/-- The bound of the loop for a queue without entries has wrapped around, and no memory is as large. -/
theorem lt_markCount_zero {bytes : ℕ} (hbytes : bytes < 2 ^ 64) :
    bytes < Event.markCount 0 * Event.EQE_BYTES := by
  unfold Event.markCount Event.EQE_BYTES
  omega

/-- For a queue with its memory: the marks come out right when all slots are in the memory and the last
one has the mark already. -/
theorem initsAll_iff_of_queue (hat : ((queueEnv eqLens).view ctx).queueAt eq = some d)
    (hsize : d.size < 2 ^ 64) (hbytes : memoryBytes ctx.mem_page_pool.world d.dma_mem < 2 ^ 64) :
    InitsAll ctx eq d.size ↔ 0 < d.size ∧
      d.size * Event.EQE_BYTES ≤ memoryBytes ctx.mem_page_pool.world d.dma_mem ∧
      (ctx.eqe eq (d.size - 1)).owned = true := by
  constructor
  · -- If all entries come out right, the loop has ended, which it does not for the size 0.
    rintro ⟨eqe, hinit, howned, hframe⟩
    have hpos : 0 < d.size := by
      rcases Nat.eq_zero_or_pos d.size with hzero | hpos
      · rcases initEventQueue_cases hat with ⟨hle, -⟩ | ⟨-, hres⟩
        · have hlt := lt_markCount_zero hbytes
          rw [hzero] at hle
          unfold Event.markCount at hlt
          omega
        · rw [hres] at hinit
          cases hinit
      · exact hpos
    have hat' : ((queueEnv eqLens).view { ctx with eqe := eqe }).queueAt eq = some d := hat
    obtain ⟨hmemory, hmark⟩ := (ownedAtHead_iff hat' (d.size - 1)).mp (howned (d.size - 1) (by omega))
    -- The entries are those that the loop leaves.
    have hmarks : eqe = (withMarks ctx eq (Event.markCount d.size)).eqe := by
      rcases initEventQueue_cases hat with ⟨-, hres⟩ | ⟨-, hres⟩
      · have hsame := hinit.symm.trans hres
        injection hsame with _ hctx
        exact congrArg MLX5_Context.eqe hctx
      · rw [hres] at hinit
        cases hinit
    -- The loop has not marked the last one, so it had its mark before.
    have hnew : ¬ d.size - 1 < Event.markCount d.size := by
      rw [Event.lt_markCount hpos hsize]
      omega
    dsimp only at hmemory hmark
    rw [hmarks, withMarks_self, Event.owned_marked, decide_eq_false hnew, Bool.false_or] at hmark
    rw [Nat.sub_add_cancel hpos] at hmemory
    exact ⟨hpos, hmemory, hmark⟩
  · -- The loop marks all entries but the last one, and that one is marked.
    rintro ⟨hpos, hfits, hlast⟩
    have hcount : ∀ i, i < Event.markCount d.size ↔ i + 1 < d.size := Event.lt_markCount hpos hsize
    have hle : Event.markCount d.size ≤ d.size := by
      have hlt := hcount d.size
      omega
    refine ⟨(withMarks ctx eq (Event.markCount d.size)).eqe, ?_, fun i hi => ?_, withMarks_frame ctx eq hle⟩
    · rcases initEventQueue_cases hat with ⟨-, hres⟩ | ⟨hover, -⟩
      · exact hres
      · unfold Event.EQE_BYTES at hfits hover
        omega
    · have hat' : ((queueEnv eqLens).view (withMarks ctx eq (Event.markCount d.size))).queueAt eq =
          some d := hat
      apply (ownedAtHead_iff hat' i).mpr
      refine ⟨Nat.le_trans (Nat.mul_le_mul_right _ hi) hfits, ?_⟩
      rw [withMarks_self, Event.owned_marked]
      -- Is it the last entry?
      rcases Nat.lt_or_ge (i + 1) d.size with hlt | hge
      · rw [decide_eq_true ((hcount i).mpr hlt), Bool.true_or]
      · obtain rfl : i = d.size - 1 := by omega
        rw [hlast, Bool.or_true]

/-- The memory of a queue that `alloc_queue` has returned. -/
theorem allocQueue_memory (h : Sound ctx)
    (halloc : (queueEnv eqLens).zoom (Q.allocQueue size) ctx = .ok eq ctx') :
    ∃ d, ((queueEnv eqLens).view ctx').queueAt eq = some d ∧ d.size = size ∧
      memoryBytes ctx'.mem_page_pool.world d.dma_mem =
        ctx.mem_page_pool.world.services.superpages (Q.queueBytes (pasCount eqLens ctx size)) ∧
      memoryBytes ctx'.mem_page_pool.world d.dma_mem < 2 ^ 64 := by
  obtain ⟨-, e, hctx, hallocated⟩ :=
    (eqLens_pool.takes_allocQueue (by decide) (still δ) h size).1 _ _ halloc
  obtain ⟨d, up, m, uar, hat, -, hmapped, -⟩ := hallocated.data
  have hbytes : memoryBytes ctx'.mem_page_pool.world m =
      ctx.mem_page_pool.world.services.superpages (Q.queueBytes (pasCount eqLens ctx size)) := by
    apply memoryBytes_of_mapped
    rw [hctx]
    exact hmapped
  have hlt : Q.queueBytes (pasCount eqLens ctx size) < 2 ^ 64 :=
    Nat.lt_of_lt_of_le (Nat.mod_lt _ (Nat.two_pow_pos 32)) (by decide)
  rw [hctx, eqLens_pool.view_set]
  rw [hctx] at hbytes
  exact ⟨_, hat, rfl, hbytes, hbytes.trans_lt (superpages_lt hlt)⟩

/-- After `alloc_queue` has returned a queue of any size, and with any contents of its memory: `init_eq`
gives all slots of the queue to the device, and changes nothing else, exactly when there is a slot, the
slots are in the memory that has been allocated, and the last one has been marked before. -/
theorem initsAll_iff (h : Sound ctx) (hsize : size < 2 ^ 64)
    (halloc : (queueEnv eqLens).zoom (Q.allocQueue size) ctx = .ok eq ctx') (mem : ℕ → Event.EQE) :
    InitsAll { ctx' with eqe := Function.update ctx'.eqe eq mem } eq size ↔ 0 < size ∧
      size * Event.EQE_BYTES ≤
        ctx.mem_page_pool.world.services.superpages (Q.queueBytes (pasCount eqLens ctx size)) ∧
      (mem (size - 1)).owned = true := by
  obtain ⟨d, hat, hd, hbytes, hlt⟩ := allocQueue_memory h halloc
  have hat' : ((queueEnv eqLens).view { ctx' with
      eqe := Function.update ctx'.eqe eq mem }).queueAt eq = some d := hat
  have hiff := initsAll_iff_of_queue hat' (hd.trans_lt hsize) hlt
  dsimp only at hiff
  rw [hd, hbytes, Function.update_self] at hiff
  exact hiff

/-- A queue of four entries can be allocated at the start. -/
theorem startContext_allocQueue : ∃ eq ctx',
    (queueEnv eqLens).zoom (Q.allocQueue 4) startContext = .ok eq ctx' := by
  have hroom : Room startContext (queueNeeds .event) :=
    startContext_room fun p => by cases p <;> decide
  obtain ⟨eq, ctx', halloc, -⟩ := (eqLens_pool.takes_allocQueue (by decide) (still Unit)
    startContext_sound 4).returns (granted_still _) trivial hroom
  exact ⟨eq, ctx', halloc⟩

/-- What `init_eq` does for it depends on what its memory contained before. -/
theorem fourEntries_initsAll_iff : ∃ (eq : PA.ElementPtr) (ctx' : MLX5_Context Unit),
    (queueEnv eqLens).zoom (Q.allocQueue 4) startContext = .ok eq ctx' ∧
      ∀ mem, InitsAll { ctx' with eqe := Function.update ctx'.eqe eq mem } eq 4 ↔ 0 < 4 ∧
        4 * Event.EQE_BYTES ≤ startContext.mem_page_pool.world.services.superpages
          (Q.queueBytes (pasCount eqLens startContext 4)) ∧ (mem 3).owned = true := by
  obtain ⟨eq, ctx', halloc⟩ := startContext_allocQueue
  exact ⟨eq, ctx', halloc, initsAll_iff startContext_sound (by decide) halloc⟩

/-- If it was zero, the last of its slots is not given to the device. -/
theorem fourEntries_not_initsAll : ∃ (eq : PA.ElementPtr) (ctx' : MLX5_Context Unit),
    (queueEnv eqLens).zoom (Q.allocQueue 4) startContext = .ok eq ctx' ∧ Q.pageCount 4 64 ≤ 31 ∧
      ¬ InitsAll { ctx' with eqe := Function.update ctx'.eqe eq Event.zeroed } eq 4 := by
  obtain ⟨eq, ctx', halloc⟩ := startContext_allocQueue
  obtain ⟨d, hat, hd, -, hlt⟩ := allocQueue_memory startContext_sound halloc
  refine ⟨eq, ctx', halloc, by decide, fun hinits => ?_⟩
  have hsize : d.size < 2 ^ 64 := by
    rw [hd]
    decide
  have hat' : ((queueEnv eqLens).view { ctx' with
      eqe := Function.update ctx'.eqe eq Event.zeroed }).queueAt eq = some d := hat
  have hiff := initsAll_iff_of_queue hat' hsize hlt
  dsimp only at hiff
  rw [hd, Function.update_self] at hiff
  obtain ⟨-, -, howned⟩ := hiff.mp hinits
  have hnot : (Event.zeroed 3).owned = false := by decide
  rw [hnot] at howned
  cases howned

end L4Rdma.Driver
