import L4Rdma.Driver.Requests

/-!
# The main thread

What `main` makes of the device after `init_hca`. The functions for queues only use the commands for a
device that is used, and `teardown_hca` shuts the device down in the order that it needs
(`teardownHca_follows`). So the main thread and the thread for page requests together keep to the order
of messages over the whole life of the device, whatever the device replies, whatever events it posts, and
whatever the kernel does (`main_obeys`).
-/

namespace L4Rdma.Driver

open Lib Device

variable {δ : Type} {D : CMD.HCA δ} {ctx ctx' : MLX5_Context δ} {p p' : Phase}

/-! ## Shutting down -/

/-- The phases in which event queues are destroyed. -/
def IsUsed (uar : Word) (p : Phase) : Prop := p = .running uar 0 ∨ p = .destroying uar

/-- What the loop that destroys the event queues keeps. -/
def Destroying (ctx : MLX5_Context δ) (p : Phase) : Prop :=
  CMD.Idle ctx.hca.args ∧ IsUsed (uarIndex ctx) p

/-- It depends only on the commands and the index of the UAR page. -/
theorem destroying_lasting : Lasting (Destroying (δ := δ)) where
  idle _ _ h := h.1
  quiet ctx ctx' p h hquiet := by
    have huar : uarIndex ctx' = uarIndex ctx := by
      unfold uarIndex
      rw [hquiet.uar]
    exact ⟨hquiet.hca ▸ h.1, huar ▸ h.2⟩

/-- The loop may destroy event queues. -/
theorem destroying_allows : Allows next (Destroying (δ := δ)) Destroying .DESTROY_EQ := by
  intro ctx p h c r hopcode
  have hgoal : goal p (c, r) = some (.destroying (uarIndex ctx)) := by
    rcases h.2 with hp | hp
    · have hnot : c.opcode ∉ forQueues.map CMD.OPCODE.value := by
        rw [hopcode]
        decide
      have hpages : CMD.OPCODE.DESTROY_EQ.value ≠ CMD.OPCODE.MANAGE_PAGES.value := by decide
      rw [hp]
      unfold goal
      exact (if_neg (not_provides (hopcode ▸ hpages))).trans
        ((if_neg fun h => hnot h.2).trans (if_pos ⟨rfl, hopcode⟩))
    · rw [hp]
      unfold goal
      exact if_pos hopcode
  refine ⟨_, next_of_goal hgoal, fun hr w hidle => ⟨hidle, ?_⟩⟩
  rw [if_pos hr]
  exact .inr rfl

/-- `dealloc_uar` gives back the UAR page of the device. -/
theorem deallocUar_abides (h : Destroying ctx p) :
    Abides D (deallocUar D) ctx p fun _ ctx' p' => CMD.Idle ctx'.hca.args ∧ p' = .quiesced := by
  unfold deallocUar
  refine Obeys.bind_of_ok (get_apply ctx) ?_
  have hfits : CMD.Fits (Buf.ofList [uarIndex ctx, 0]) 2 DEALLOC_UAR_OUTPUT_LENGTH :=
    ⟨by norm_num, Nat.le_refl 2, by norm_num⟩
  have hgoal : ∀ r, goal p (CMD.command .DEALLOC_UAR 0x0 (Buf.ofList [uarIndex ctx, 0]) 2
      DEALLOC_UAR_OUTPUT_LENGTH, r) = some .quiesced := fun r => by
    have hdestroy : CMD.OPCODE.DEALLOC_UAR.value ≠ CMD.OPCODE.DESTROY_EQ.value := by decide
    rcases h.2 with hp | hp
    · rw [hp]
      unfold goal
      have hpages : CMD.OPCODE.DEALLOC_UAR.value ≠ CMD.OPCODE.MANAGE_PAGES.value := by decide
      have hnot : CMD.OPCODE.DEALLOC_UAR.value ∉ forQueues.map CMD.OPCODE.value := by decide
      exact (if_neg (not_provides hpages)).trans
        ((if_neg fun h => hnot h.2).trans ((if_neg fun h => hdestroy h.2).trans (if_pos ⟨rfl, rfl⟩)))
    · rw [hp]
      unfold goal
      exact (if_neg hdestroy).trans (if_pos rfl)
  refine (abides_issue h.1 hfits .DEALLOC_UAR 0x0 (hgoal _)).bind ?_
  rintro slot ctx' p' ⟨rfl, -, hissued⟩
  exact obeys_pure ⟨hissued.idle, rfl⟩

/-- The loop of `reclaim_all_pages` goes on until the device has no more pages. -/
theorem reclaimRounds_follows (fuel : ℕ) {result : ℤ} (hidle : CMD.Idle ctx.hca.args) :
    Follows D (reclaimRounds D fuel result) ctx (.torn false)
      fun _ ctx' p' => CMD.Idle ctx'.hca.args ∧ p' = .torn true := by
  have hgoal : ∀ r : CMD.Reply, goal (.torn false) (reclaimCommand (64 * CMD.MBB_MAX_COUNT), r) =
      some (.torn (r.output 0 = 0)) := fun r => by
    unfold goal
    exact if_pos rfl
  induction fuel generalizing ctx result with
  | zero => exact obeys_throw trivial
  | succ fuel ih =>
    unfold reclaimRounds
    have hround := reclaimPages_follows (D := D) (k := 64 * CMD.MBB_MAX_COUNT)
      (f := fun count => .torn (count = 0)) (by norm_num) (by norm_num) hgoal hidle
    refine hround.bind ?_
    rintro count ctx₁ p₁ ⟨hidle₁, rfl⟩
    have hint : Leaves spoken (int32 (result + count.toInt) : Exec (MLX5_Context δ) ℤ) :=
      leaves_ite (leaves_pure _) (leaves_throw _)
    refine (follows_of_leaves hint).bind ?_
    rintro result' ctx₂ p₂ ⟨rfl, hspoken⟩
    have h₂ : ctx₂.hca = ctx₁.hca := congrArg Prod.fst hspoken
    by_cases hzero : count = 0
    · rw [if_pos hzero, decide_eq_true hzero]
      exact obeys_pure ⟨h₂ ▸ hidle₁, rfl⟩
    · rw [if_neg hzero, decide_eq_false hzero]
      exact ih (h₂ ▸ hidle₁)

/-- Whatever the device replies, and whatever is in the pools: `teardown_hca` shuts the device down in
the order that it needs. If it returns, the device has been disabled, and has said before that it has no
more pages. -/
theorem teardownHca_follows (D : CMD.HCA δ) (fuel : ℕ) (ctx : MLX5_Context δ) (p : Phase)
    (h : Destroying ctx p) :
    Follows D (teardownHca D fuel) ctx p
      fun _ ctx' p' => CMD.Idle ctx'.hca.args ∧ p' = .off := by
  have hteardown : ∀ r, goal .quiesced (CMD.command .TEARDOWN_HCA 0x0 (Buf.ofList []) 0
      TEARDOWN_HCA_OUTPUT_LENGTH, r) = some (.torn false) := fun r => by
    unfold goal
    exact if_pos rfl
  have hdisable : ∀ r, goal (.torn true) (CMD.command .DISABLE_HCA 0x0 (Buf.ofList []) 0
      DISABLE_HCA_OUTPUT_LENGTH, r) = some .off := fun r => by
    unfold goal
    exact if_pos rfl
  have hnil : CMD.Fits (Buf.ofList []) 0 0 := fits_nil (by norm_num)
  unfold teardownHca
  refine (destroying_lasting.passes_teardownEqs destroying_allows ctx p h).bind ?_
  intro _ ctx₁ p₁ h₁
  refine (deallocUar_abides h₁).follows.bind ?_
  rintro _ ctx₂ p₂ ⟨hidle₂, rfl⟩
  refine (abides_issue hidle₂ hnil .TEARDOWN_HCA 0x0 (hteardown _)).follows.bind ?_
  rintro slot₃ ctx₃ p₃ ⟨rfl, -, hissued₃⟩
  have hreclaim : Follows D (reclaimAllPages D fuel) ctx₃ (.torn false)
      fun _ ctx' p' => CMD.Idle ctx'.hca.args ∧ p' = .torn true :=
    (reclaimRounds_follows fuel hissued₃.idle).bind fun _ _ _ h => obeys_pure h
  refine hreclaim.bind ?_
  rintro _ ctx₄ p₄ ⟨hidle₄, rfl⟩
  refine (abides_issue hidle₄ hnil .DISABLE_HCA 0x0 (hdisable _)).follows.bind ?_
  rintro slot₅ ctx₅ p₅ ⟨rfl, -, hissued₅⟩
  exact obeys_pure ⟨hissued₅.idle, rfl⟩

/-! ## The whole life -/

/-- The device is used until it is shut down. -/
theorem serveAndShutDown_follows (m : Meanwhile) (fuel : ℕ) (h : Serving ctx p) :
    Follows D (serveAndShutDown D m fuel) ctx p
      fun _ ctx' p' => CMD.Idle ctx'.hca.args ∧ p' = .off := by
  have hcreate : Passes D next Serving Serving (createWqc D 2 0) := fun ctx p h =>
    (passes_createWqc serving_upheld (fun _ => serving_upheld) (fun ctx p h =>
      (Passes.bind (passes_mem MEM.allocPage) fun mp => passes_mem (PA.derefElement (some mp))) ctx p h)
      2 0 ctx p h).mono (fun _ _ _ ⟨_, h', _⟩ => h') fun _ _ _ _ => trivial
  have hwait : ∀ eq_number acts, Passes D next Serving Serving (await D eq_number acts) :=
    serving_upheld.passes_await passes_request
  unfold serveAndShutDown setupWorkQueue
  refine (serving_upheld.passes_setupEventQueue passes_request _ _ ctx p h).bind ?_
  intro eq_number ctx₁ p₁ h₁
  refine (hwait eq_number _ ctx₁ p₁ h₁).bind fun _ ctx₂ p₂ h₂ => ?_
  refine Obeys.bind (Passes.bind hcreate (fun wq_number => (hwait eq_number _).bind fun _ =>
    serving_upheld.passes_destroyWqc wq_number) ctx₂ p₂ h₂) fun _ ctx₃ p₃ h₃ => ?_
  refine (hwait eq_number _ ctx₃ p₃ h₃).bind fun _ ctx₄ p₄ h₄ => ?_
  exact teardownHca_follows D fuel ctx₄ p₄ ⟨h₄.1, .inl h₄.2⟩

/-- Whatever the device replies, whatever events it posts, however many rounds the second thread makes
between the calls of the main thread, and whatever the kernel does: from `init_hca` to the end of
`teardown_hca`, the two threads tell the device only what may come next, and nothing more once it has not
accepted a command. If `main` gets through, the device has been disabled, and has said before that it has
no more pages. -/
theorem main_obeys (D : CMD.HCA δ) (bar0 : ℕ) (m : Meanwhile) (fuel : ℕ) (boot : Boot δ)
    (hidle : CMD.Idle boot.ctx.hca.args) :
    Obeys (bootTalk D) next (main D bar0 m fuel) boot .down (fun _ _ p => p = .off)
      fun _ _ _ => True := by
  unfold main
  refine (initHca_obeys D bar0 boot hidle).bind ?_
  intro _ boot₁ p₁ h₁
  refine (Obeys.zoom ctxLens_lawful (serveAndShutDown_follows m fuel h₁)).mono ?_ fun _ _ _ _ => trivial
  rintro _ boot₂ p₂ ⟨-, -, hoff⟩
  exact hoff

end L4Rdma.Driver
