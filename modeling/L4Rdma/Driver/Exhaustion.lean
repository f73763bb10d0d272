import L4Rdma.Driver.Creating

/-!
# When a pool is used up

`PA::alloc_page` returns a null pointer when its pool is used up, and none of the functions that take
elements looks for it. They access a null pointer exactly when one of the pools that they draw on has
no room for what they take of it (`noNullDeref_iff_room`). The number of UAR pages is what ties the
three pools of queue objects together.
-/

namespace L4Rdma.Driver

open Lib Device

variable {δ : Type} {ctx ctx' : MLX5_Context δ}

/-- The states that the pools can reach, with any fill level in any combination, when commands can be
issued. -/
structure Reached (ctx : MLX5_Context δ) : Prop where
  idle : CMD.Idle ctx.hca.args
  mem : PA.Reached MEM.kind ctx.mem_page_pool
  uar : PA.Reached (UAR.kind Unit) ctx.uar_page_pool
  event : PA.Reached (Q.kind Unit Event.EQ_CTX) ctx.event_queue_pool
  compl : PA.Reached (Q.kind Unit CQ.CQ_CTX) ctx.compl_queue_pool
  work : PA.Reached (Q.kind Unit WQ.WQ_CTX) ctx.work_queue_pool
  event_count : ctx.event_queue_pool.pool.data.page_entry_count = 64
  compl_count : ctx.compl_queue_pool.pool.data.page_entry_count = 64
  work_count : ctx.work_queue_pool.pool.data.page_entry_count = 1

/-- The pools of a context that has been reached are well formed. -/
theorem Reached.sound (h : Reached ctx) : Sound ctx where
  idle := h.idle
  mem := h.mem.sound
  uar := h.uar.sound
  event := h.event.sound
  compl := h.compl.sound
  work := h.work.sound
  event_count := by rw [h.event_count]; decide
  compl_count := by rw [h.compl_count]; decide
  work_count := by rw [h.work_count]; decide

/-! ## Calls -/

/-- The calls that take elements of the pools. -/
inductive Call
  | providePages (page_count : ℕ)
  | allocEventQueue (size : ℕ)
  | allocComplQueue (size : ℕ)
  | allocWorkQueue (size : ℕ)
  | createEq (size : ℕ) (type irq_num : Word)
  | createCq (size : ℕ)
  | createWqc (size : ℕ) (wq_number : Word)

/-- What a call does, without its result. -/
def Call.run (D : CMD.HCA δ) : Call → Exec (MLX5_Context δ) Unit
  | .providePages page_count => Driver.providePages D page_count
  | .allocEventQueue size => do let _ ← (queueEnv eqLens).zoom (Q.allocQueue size)
  | .allocComplQueue size => do let _ ← (queueEnv cqLens).zoom (Q.allocQueue size)
  | .allocWorkQueue size => do let _ ← (queueEnv wqLens).zoom (Q.allocQueue size)
  | .createEq size type irq_num => do let _ ← Driver.createEq D size type irq_num
  | .createCq size => do let _ ← Driver.createCq D size
  | .createWqc size wq_number => do let _ ← Driver.createWqc D size wq_number

/-- What a call takes of each pool. -/
def Call.needs : Call → PoolName → ℕ
  | .providePages page_count => memNeeds (page_count % 2 ^ 31)
  | .allocEventQueue _ => queueNeeds .event
  | .allocComplQueue _ => queueNeeds .compl
  | .allocWorkQueue _ => queueNeeds .work
  | .createEq _ _ _ => queueNeeds .event
  | .createCq _ => cqNeeds
  | .createWqc _ _ => wqNeeds

/-- A call takes what it needs, or stops. -/
theorem Call.takes (c : Call) (D : CMD.HCA δ) (h : Sound ctx) :
    Takes D False c.needs (c.run D) ctx fun _ _ => True := by
  have hunit : ∀ {α : Type} {sure : Prop} {n : PoolName → ℕ} {x : Exec (MLX5_Context δ) α}
      {P : α → MLX5_Context δ → Prop}, Takes D sure n x ctx P →
        Takes D False n (do let _ ← x) ctx fun _ _ => True := fun hx =>
    (hx.mono False.elim fun _ _ h => h).and_then fun _ ctx' hgrew _ =>
      takes_of_ok (pure_apply () ctx') hgrew.sound.grew_zero trivial
  cases c with
  | providePages page_count => exact (takes_providePages D h page_count).mono False.elim fun _ _ h => h
  | allocEventQueue size => exact hunit (eqLens_pool.takes_allocQueue (by decide) D h size)
  | allocComplQueue size => exact hunit (cqLens_pool.takes_allocQueue (by decide) D h size)
  | allocWorkQueue size => exact hunit (wqLens_pool.takes_allocQueue (by decide) D h size)
  | createEq size type irq_num => exact hunit (takes_createEq D h size type irq_num)
  | createCq size => exact hunit (takes_createCq D h size)
  | createWqc size wq_number => exact hunit (takes_createWqc D h size wq_number)

/-! ## Null pointers -/

/-- Without room, a call on a device and a kernel that do their part accesses a null pointer. -/
theorem Call.derefs_null (c : Call) (h : Sound ctx) (hfull : ¬ Room ctx c.needs) :
    ∃ ctx', c.run (still δ) (onKernel MEM.boundless ctx) = .error (.undefined .null_deref) ctx' := by
  rcases (c.takes (still δ) (h.onKernel MEM.boundless)).cases with
    ⟨u, ctx', -, hgrew, -⟩ | ⟨err, ctx', herr, hfails⟩
  · exact absurd (room_onKernel.mp hgrew.room) hfull
  · have hnull := hfails.null (granted_still ctx) (.inr (mt room_onKernel.mp hfull))
    rw [hnull] at herr
    exact ⟨ctx', herr⟩

/-- In every state that the pools can reach: a call accesses no null pointer, whatever the device and
the kernel do, exactly when the pools have room for what it takes. -/
theorem noNullDeref_iff_room (h : Reached ctx) (c : Call) :
    (∀ (D : CMD.HCA δ) (r : MEM.L4Re) (err : Stop) (ctx' : MLX5_Context δ),
      c.run D (onKernel r ctx) = .error err ctx' → err ≠ .undefined .null_deref) ↔
      Room ctx c.needs := by
  constructor
  · intro hnever
    by_contra hfull
    obtain ⟨ctx', hnull⟩ := c.derefs_null h.sound hfull
    exact hnever _ _ _ _ hnull rfl
  · intro hroom D r err ctx' herr hnull
    have hfails := (c.takes D (h.sound.onKernel r)).2 err ctx' herr
    exact hfails.room hnull (room_onKernel.mpr hroom)

/-- The pools at the start. -/
theorem startContext_reached : Reached startContext where
  idle := initContext_idle ()
  mem := (PA.Reached.empty (k := MEM.kind) (s := MEM.initPool)
    ⟨rfl, rfl, rfl, Nat.le_of_ble_eq_true rfl, fun _ => rfl⟩).other _ _
  uar := .empty ⟨rfl, rfl, rfl, Nat.le_of_ble_eq_true rfl, fun _ => rfl⟩
  event := .empty ⟨rfl, rfl, rfl, Nat.le_of_ble_eq_true rfl, fun _ => rfl⟩
  compl := .empty ⟨rfl, rfl, rfl, Nat.le_of_ble_eq_true rfl, fun _ => rfl⟩
  work := .empty ⟨rfl, rfl, rfl, Nat.le_of_ble_eq_true rfl, fun _ => rfl⟩
  event_count := rfl
  compl_count := rfl
  work_count := rfl

/-- Creating a completion queue at the start, and providing more pages than there are. -/
theorem startContext_noNullDeref_iff :
    ((∀ (D : CMD.HCA Unit) (r : MEM.L4Re) (err : Stop) (ctx' : MLX5_Context Unit),
        (Call.createCq 100).run D (onKernel r startContext) = .error err ctx' →
          err ≠ .undefined .null_deref) ↔ Room startContext cqNeeds) ∧
      ((∀ (D : CMD.HCA Unit) (r : MEM.L4Re) (err : Stop) (ctx' : MLX5_Context Unit),
        (Call.providePages 65537).run D (onKernel r startContext) = .error err ctx' →
          err ≠ .undefined .null_deref) ↔ Room startContext (memNeeds 65537)) :=
  ⟨noNullDeref_iff_room startContext_reached (.createCq 100),
    noNullDeref_iff_room startContext_reached (.providePages 65537)⟩

/-- A device that asks for one page more than the pool may have makes the driver access a null
pointer. -/
theorem providePages_derefs_null :
    Reached startContext ∧ ∃ ctx', (Call.providePages 65537).run (still Unit) startContext =
      .error (.undefined .null_deref) ctx' := by
  have hfull : ¬ Room (initContext ()) (Call.needs (.providePages 65537)) := fun hroom => by
    have hmem : 0 + 65537 ≤ 65536 := hroom .mem
    omega
  exact ⟨startContext_reached, Call.derefs_null (.providePages 65537) (initContext_sound ()) hfull⟩

end L4Rdma.Driver
