import L4Rdma.Driver.Upholding

/-!
# Page requests

What the second thread makes of a page request that it has read. It provides the pages that the device
asks for, or takes back those that it offers, with as many commands as that needs, and then the device
waits for no page any more (`passes_request`). For more pages than have a place in the output mailbox
there is at most one command, and the thread does not get any further (`reclaimPages_long`).
-/

namespace L4Rdma

open Lib Device

/-! ## Taking an output -/

namespace CMD

variable {mailbox : MEM.DmaMem} {slot : ℕ}

/-- Writing a word only returns if the word has a place, and keeps the length. -/
theorem ends_write {σ : Type} (b : Buf) (i : ℕ) (w : Word) (s : σ) :
    Ends (b.write i w : Exec σ Buf) s (fun b' s' => i < b.size ∧ b'.size = b.size ∧ s' = s)
      fun _ s' => s' = s := by
  unfold Buf.write
  split_ifs with hi
  · exact ends_pure ⟨hi, rfl, rfl⟩
  · exact ends_of_error (throw_apply _ s) rfl

/-- `unpack_mail` only returns if all words have a place in the payload. -/
theorem ends_unpackMail_inside (b : Buf) (start n : ℕ) (a : CMD_Args) :
    Ends (unpackMail mailbox b start n) a (fun _ _ => 0 < n → start + n ≤ b.size) fun _ _ => True := by
  have hround : ∀ i (c : (ℕ × ℕ) × Buf) a, i < n →
      (c.2.size = b.size ∧ (0 < i → start + i ≤ b.size)) → Ends (unpackWord mailbox start i c) a
        (fun c' _ => c'.2.size = b.size ∧ (0 < i + 1 → start + (i + 1) ≤ b.size)) fun _ _ => True := by
    rintro i c a - ⟨hsize, -⟩
    unfold unpackWord
    refine Ends.bind_of_ok (get_apply a) ?_
    dsimp only
    split_ifs
    · refine Ends.bind ((ends_write _ _ _ _).mono (fun _ _ h => h) fun _ _ _ => trivial) ?_
      rintro b' a' ⟨hlt, hsize', -⟩
      exact ends_pure ⟨hsize'.trans hsize, fun _ => by omega⟩
    · exact ends_of_error (throw_apply _ a) trivial
  unfold unpackMail
  refine Ends.bind (ends_forRange (fun i (c : (ℕ × ℕ) × Buf) _ =>
    c.2.size = b.size ∧ (0 < i → start + i ≤ b.size)) ⟨rfl, fun h => absurd h (Nat.lt_irrefl 0)⟩ hround) ?_
  rintro c a' ⟨-, hinside⟩
  exact ends_pure hinside

/-- And so does `get_cmd_output`. -/
theorem ends_getCmdOutput_inside (output : Buf) (n : ℕ) (a : CMD_Args) :
    Ends (getCmdOutput slot output n) a (fun _ _ => n ≤ output.size) fun _ _ => True := by
  unfold getCmdOutput
  refine Ends.bind_of_ok (get_apply a) ?_
  by_cases hzero : n = 0
  · rw [if_pos hzero]
    exact ends_pure (hzero ▸ Nat.zero_le _)
  rw [if_neg hzero]
  refine Ends.bind ((ends_write _ _ _ _).mono (fun _ _ h => h) fun _ _ _ => trivial) ?_
  rintro output₁ a₁ ⟨hlt₁, hsize₁, -⟩
  by_cases hone : n > 1
  · rw [if_pos hone]
    refine Ends.bind ((ends_write _ _ _ _).mono (fun _ _ h => h) fun _ _ _ => trivial) ?_
    rintro output₂ a₂ ⟨hlt₂, hsize₂, -⟩
    split_ifs
    · refine (ends_unpackMail_inside output₂ 2 (n - 2) a₂).mono (fun _ _ h => ?_) fun _ _ _ => trivial
      have hle := h (by omega)
      omega
    · exact ends_pure (by omega)
  · rw [if_neg hone]
    exact ends_pure (by omega)

end CMD

namespace Driver

variable {δ P : Type} {D : CMD.HCA δ} {ctx ctx' : MLX5_Context δ} {p p' : Phase}

/-! ## Reclaiming pages -/

/-- Freeing the pages whose addresses are in an output says nothing. -/
theorem leaves_freeNamed (output : Buf) (count : Word) : Leaves spoken (do
    forRange count.toInt.toNat () (reclaimPage output)
    return count : Exec (MLX5_Context δ) Word) := by
  refine (leaves_forRange fun i u => ?_).bind fun _ => leaves_pure _
  unfold reclaimPage
  exact (leaves_read _ _).bind fun _ => (leaves_read _ _).bind fun _ => leaves_zoom (fun _ _ => rfl) _

/-- A call of `reclaim_pages` for pages that fit into the mailbox is one command, and returns the number of
pages in the reply. -/
theorem reclaimPages_follows {k : ℤ} (hpos : 0 ≤ k) (hk : k ≤ 3200) {f : Word → Phase}
    (hgoal : ∀ r, goal p (reclaimCommand k, r) = some (f (r.output 0))) (hidle : CMD.Idle ctx.hca.args) :
    Follows D (reclaimPages D k) ctx p fun count ctx' p' => CMD.Idle ctx'.hca.args ∧ p' = f count := by
  unfold reclaimPages
  refine Obeys.bind_of_ok (reclaimOutputLength_ok hpos (by omega) ctx) ?_
  refine Obeys.bind_of_ok (get_apply ctx) ?_
  refine (abides_issue hidle (fits_reclaim hk) .MANAGE_PAGES 0x2 (hgoal _)).follows.bind ?_
  rintro slot ctx₁ p₁ ⟨rfl, -, hissued⟩
  rw [command_reclaim] at hissued ⊢
  generalize ctx.hca.reply D (reclaimCommand k) = r at hissued ⊢
  have hcount : ioread32be ((ctx₁.hca.args.cqe slot).cod.output 0) = r.output 0 :=
    hissued.answered.inline 0 (Nat.lt_of_lt_of_le Nat.zero_lt_two (Nat.le_add_right 2 _))
  refine Obeys.bind_of_ok (get_apply ctx₁) ?_
  -- The number is read from the entry before the pages are freed.
  rw [hcount]
  generalize r.output 0 = count
  refine (follows_of_leaves (leaves_takeOutput _ slot _ _)).bind ?_
  rintro output ctx₂ p₂ ⟨rfl, h₂⟩
  -- Freeing the pages says nothing, and the number is returned if it returns.
  have hreturn : Ends (do
      forRange count.toInt.toNat () (reclaimPage output)
      return count : Exec (MLX5_Context δ) Word) ctx₂
      (fun count' ctx' => spoken ctx' = spoken ctx₂ ∧ count' = count)
      fun _ ctx' => spoken ctx' = spoken ctx₂ := by
    refine ⟨fun count' ctx' hok => ⟨(leaves_freeNamed output count ctx₂).1 _ _ hok, ?_⟩,
      (leaves_freeNamed output count ctx₂).2⟩
    obtain ⟨_, _, -, hpure⟩ := bind_eq_ok_iff.mp hok
    cases hpure
    rfl
  refine obeys_of_silent (hreturn.mono ?_ fun _ _ heq => ⟨said_nil heq, trivial⟩)
  rintro count' ctx' ⟨heq, rfl⟩
  have hhca : ctx'.hca = ctx₁.hca := congrArg Prod.fst (heq.trans h₂)
  exact ⟨said_nil heq, hhca ▸ hissued.idle, rfl⟩

/-- The result of a signed operation, if there is one. -/
theorem ends_int32 {σ : Type} (m : ℤ) (s : σ) :
    Ends (int32 m : Exec σ ℤ) s (fun m' s' => m' = m ∧ s' = s ∧ -2 ^ 31 ≤ m ∧ m < 2 ^ 31)
      fun _ s' => s' = s := by
  unfold int32
  split_ifs with h
  · exact ends_pure ⟨rfl, rfl, h⟩
  · exact ends_of_error (throw_apply _ s) rfl

/-- The length of the output of a call for more pages is larger than the buffer. -/
theorem ends_reclaimOutputLength {σ : Type} {k : ℤ} (hk : 3200 < k) (s : σ) :
    Ends (reclaimOutputLength k : Exec σ ℕ) s (fun length s' => s' = s ∧ CMD.OMB_MAX_DATA + 2 < length)
      fun _ s' => s' = s := by
  unfold reclaimOutputLength
  refine (ends_int32 (k * 2) s).bind ?_
  rintro _ _ ⟨rfl, rfl, -, -⟩
  refine (ends_int32 (2 + k * 2) _).bind ?_
  rintro _ _ ⟨rfl, rfl, -, hlt⟩
  refine ends_pure ⟨rfl, ?_⟩
  show 128 * 50 + 2 < (BitVec.ofInt 32 (2 + k * 2)).toNat
  rw [BitVec.toNat_ofInt]
  omega

/-- A call for more pages does not return, even where the length in bytes wraps and the command is issued:
there is no room for the output. -/
theorem reclaimPages_long {next : P → Message → Option P} {p : P} {k : ℤ} (hk : 3200 < k)
    (hidle : CMD.Idle ctx.hca.args)
    (hnext : ∀ c r, Reclaims c k → ∃ p', next p (.exchange (c, r)) = some p') :
    Obeys (talk D) next (reclaimPages D k) ctx p (fun _ _ _ => False) fun _ _ _ => True := by
  -- Steps that leave what is said.
  have hsilent : ∀ {α : Type} {x : Exec (MLX5_Context δ) α} {ctx₀ p₀} {R : α → MLX5_Context δ → Prop},
      Ends x ctx₀ (fun a ctx' => spoken ctx' = spoken ctx₀ ∧ R a ctx')
        (fun _ ctx' => spoken ctx' = spoken ctx₀) →
      Obeys (talk D) next x ctx₀ p₀ (fun a ctx' p' => p' = p₀ ∧ R a ctx') fun _ _ _ => True := by
    intro α x ctx₀ p₀ R hx
    refine obeys_of_silent (hx.mono ?_ fun _ _ heq => ⟨said_nil heq, trivial⟩)
    exact fun _ _ h' => ⟨said_nil h'.1, rfl, h'.2⟩
  unfold reclaimPages
  refine (hsilent ((ends_reclaimOutputLength hk ctx).mono
    (fun _ _ h' => ⟨congrArg spoken h'.1, h'⟩) fun _ _ heq => congrArg spoken heq)).bind ?_
  rintro length ctx₀ p₀ ⟨rfl, rfl, hlong⟩
  refine Obeys.bind_of_ok (get_apply ctx₀) ?_
  -- The payload is short, so it is in the entry, whatever happens to the output.
  have hissue : Obeys (talk D) next (hcaLens.zoom (CMD.issue D .MANAGE_PAGES 0x2
      (Buf.ofList [0, BitVec.ofInt 32 k]) 2 length)) ctx₀ p₀ (fun _ _ _ => True) fun _ _ _ => True := by
    have hany := obeys_hca next <| CMD.obeys_issueAny D hidle .MANAGE_PAGES 0x2
      (Buf.ofList [0, BitVec.ofInt 32 k]) 2 length (p := p₀) (G := fun _ => True)
      fun c r hopcode hmod hpayload => by
        have hreclaims : Reclaims c k :=
          ⟨hopcode, hmod.trans (by decide), hpayload (Nat.le_refl 2), fun hle => absurd hle (by omega)⟩
        obtain ⟨p', hp'⟩ := hnext c r hreclaims
        exact ⟨p', hp', fun _ => trivial⟩
    exact hany.mono (fun _ _ _ _ => trivial) fun _ _ _ _ => trivial
  refine hissue.bind ?_
  rintro slot ctx₁ p₁ -
  refine Obeys.bind_of_ok (get_apply ctx₁) ?_
  -- The output does not fit into its array.
  have htake : Ends (argsLens.zoom (CMD.getCmdOutput slot ⟨CMD.OMB_MAX_DATA + 2, ctx₀.uninit⟩ length)) ctx₁
      (fun _ _ => False) fun _ _ => True := by
    refine (CMD.ends_getCmdOutput_inside _ _ _).zoom.mono ?_ fun _ _ _ => trivial
    rintro output ctx' ⟨a, -, hle⟩
    exact Nat.not_lt_of_le hle hlong
  have hall := htake.and (leaves_takeOutput spoken slot ⟨CMD.OMB_MAX_DATA + 2, ctx₀.uninit⟩ length ctx₁)
  exact (hsilent (R := fun _ _ => False) (hall.mono (fun _ _ h' => h'.1.elim) fun _ _ h' => h'.2)).bind
    fun _ _ _ h' => h'.2.elim

/-! ## Using the device -/

/-- The device can be used and waits for no page, and the driver has the index of its UAR page. -/
def Serving (ctx : MLX5_Context δ) (p : Phase) : Prop :=
  CMD.Idle ctx.hca.args ∧ p = .running (uarIndex ctx) 0

/-- The commands for queues leave the device in use. -/
theorem serving_allows {opcode : CMD.OPCODE} (h : opcode ∈ forQueues) :
    Allows next (Serving (δ := δ)) Serving opcode := by
  intro ctx p hserving c r hopcode
  have hmem : c.opcode ∈ forQueues.map CMD.OPCODE.value := by
    rw [hopcode]
    exact List.mem_map_of_mem h
  have hother : ∀ opcode ∈ forQueues, opcode.value ≠ CMD.OPCODE.MANAGE_PAGES.value := by decide
  have hgoal : goal p (c, r) = some p := by
    rw [hserving.2]
    unfold goal
    exact (if_neg (not_provides (hopcode ▸ hother opcode h))).trans (if_pos ⟨rfl, hmem⟩)
  refine ⟨_, next_of_goal hgoal, fun hr w hidle => ⟨hidle, ?_⟩⟩
  rw [if_pos hr]
  exact hserving.2

/-- The functions for queues leave the device in use. -/
theorem serving_upheld : Upheld next (Serving (δ := δ)) where
  idle _ _ h := h.1
  quiet ctx ctx' p h hquiet := by
    refine ⟨hquiet.hca ▸ h.1, h.2.trans ?_⟩
    unfold uarIndex
    rw [hquiet.uar]
  may _ hmem := serving_allows hmem

/-- The memory pages have no share in this. -/
theorem passes_mem {α : Type} (x : Exec MEM.State α) :
    Passes D next Serving Serving (memLens.zoom x) := by
  intro ctx p h
  have hx : Leaves (fun ctx : MLX5_Context δ => (spoken ctx, uarIndex ctx)) (memLens.zoom x) :=
    leaves_zoom (fun _ _ => rfl) x
  refine obeys_of_silent ((hx ctx).mono (fun _ ctx' heq => ?_) fun _ ctx' heq => ?_)
  · obtain ⟨hspoken, huar⟩ := Prod.mk.inj heq
    have hhca : ctx'.hca = ctx.hca := congrArg Prod.fst hspoken
    exact ⟨said_nil hspoken, hhca ▸ h.1, huar ▸ h.2⟩
  · exact ⟨said_nil (congrArg Prod.fst heq), trivial⟩

/-- A page request only works on commands and memory pages. -/
theorem leaves_handlePageRequest {τ : Type} {f : MLX5_Context δ → τ}
    (hhca : ∀ w ctx, f (hcaLens.set w ctx) = f ctx) (hargs : ∀ a ctx, f (argsLens.set a ctx) = f ctx)
    (hmem : ∀ s ctx, f (memLens.set s ctx) = f ctx) (payload : Event.Payload) :
    Leaves f (handlePageRequest D payload) := by
  have hwrite : ∀ (b : Buf) (i : ℕ) (w : Word), Leaves f (b.write i w : Exec (MLX5_Context δ) Buf) :=
    fun b i w => leaves_ite (leaves_pure _) (leaves_throw _)
  have hint : ∀ n, Leaves f (int32 n : Exec (MLX5_Context δ) ℤ) := fun n =>
    leaves_ite (leaves_pure _) (leaves_throw _)
  unfold handlePageRequest
  refine leaves_ite ?_ ?_
  · unfold providePages provideBatch providePage
    refine leaves_get.bind fun ctx => (leaves_forRange fun i b => ?_).bind fun _ => leaves_pure _
    refine (hwrite _ _ _).bind fun b => (hwrite _ _ _).bind fun b => ?_
    refine (leaves_forRange fun j b => ?_).bind fun b =>
      (leaves_zoom hhca _).bind fun _ => leaves_pure _
    refine (leaves_zoom hmem _).bind fun mp => (leaves_zoom hmem _).bind fun blk => ?_
    exact (hwrite _ _ _).bind fun b => hwrite _ _ _
  · unfold reclaimPages reclaimOutputLength reclaimPage
    refine (leaves_ite (hint _) (leaves_pure _)).bind fun n => Leaves.bind ?_ fun _ => leaves_pure _
    refine ((hint _).bind fun _ => (hint _).bind fun _ => leaves_pure _).bind fun length => ?_
    refine leaves_get.bind fun ctx => (leaves_zoom hhca _).bind fun slot => leaves_get.bind fun ctx => ?_
    refine (leaves_zoom hargs _).bind fun output => (leaves_forRange fun i _ => ?_).bind fun _ => leaves_pure _
    exact (leaves_read _ _).bind fun _ => (leaves_read _ _).bind fun _ => leaves_zoom hmem _

/-- After a page request has been read, its pages are provided or taken back, and nothing else is said until
that is done. -/
theorem handlePageRequest_follows (hidle : CMD.Idle ctx.hca.args) {uar : Word} (payload : Event.Payload)
    (hasked : asked (.running uar 0) (payload 1).toInt = some p) :
    Follows D (handlePageRequest D payload) ctx p
      fun _ ctx' p' => CMD.Idle ctx'.hca.args ∧ p' = .running uar 0 := by
  have hlow := BitVec.le_toInt (payload 1)
  have hhigh := BitVec.toInt_lt (x := payload 1)
  -- A positive number is the same with and without a sign.
  have htoNat : 0 < (payload 1).toInt → (((payload 1).toNat : ℕ) : ℤ) = (payload 1).toInt := by
    intro hpos
    have hcases := BitVec.toInt_eq_toNat_cond (payload 1)
    have hlt := (payload 1).isLt
    split_ifs at hcases <;> omega
  have hphase : some p = if 0 < (payload 1).toInt then some (.running uar (payload 1).toInt)
      else some (.calling uar (-(payload 1).toInt)) := hasked.symm
  unfold handlePageRequest
  by_cases hpos : (payload 1).toInt > 0
  · -- The device asks for pages, and gets exactly these.
    rw [if_pos hpos] at hphase ⊢
    obtain rfl := Option.some.inj hphase
    rw [← htoNat hpos]
    exact providePages_follows (isOwing_running uar) (by have := htoNat hpos; omega) hidle
  · rw [if_neg hpos] at hphase ⊢
    obtain rfl := Option.some.inj hphase
    -- The device offers pages. Their number is the absolute value, if there is one.
    have habs : Ends (abs (payload 1).toInt) ctx (fun n ctx' => ctx' = ctx ∧ n = -(payload 1).toInt)
        fun _ ctx' => ctx' = ctx := by
      unfold abs int32
      split_ifs
      · exact ends_pure ⟨rfl, rfl⟩
      · exact ends_of_error rfl rfl
      · exact ends_pure ⟨rfl, by omega⟩
    refine Obeys.bind (obeys_of_silent (R := fun n ctx' p' => ctx' = ctx ∧ n = -(payload 1).toInt ∧
      p' = .calling uar (-(payload 1).toInt)) (habs.mono ?_ ?_)) ?_
    · rintro n _ ⟨rfl, rfl⟩
      exact ⟨said_nil rfl, rfl, rfl, rfl⟩
    · rintro err _ rfl
      exact ⟨said_nil rfl, trivial⟩
    rintro n _ _ ⟨rfl, rfl, rfl⟩
    by_cases hk : -(payload 1).toInt ≤ 3200
    · -- One command takes them back.
      have hgoal : ∀ r : CMD.Reply, goal (.calling uar (-(payload 1).toInt))
          (reclaimCommand (-(payload 1).toInt), r) = some (.running uar 0) := fun r =>
        if_pos ⟨rfl, rfl, rfl, fun _ => rfl⟩
      refine (reclaimPages_follows (by omega) hk (f := fun _ => .running uar 0) hgoal hidle).bind ?_
      rintro count ctx' p' ⟨hidle', rfl⟩
      exact obeys_pure ⟨hidle', rfl⟩
    · -- So it does for more pages, but then the call does not return.
      refine Obeys.bind (reclaimPages_long (by omega) hidle ?_) fun _ _ _ hfalse => hfalse.elim
      intro c r hreclaims
      exact ⟨_, next_of_goal (if_pos hreclaims)⟩

/-- A page request leaves the device in use, whatever the number of pages, and whatever the device
replies. -/
theorem passes_request (payload : Event.Payload) : Passes D next Serving Serving (do
    recordRequest payload
    handlePageRequest D payload) := by
  rintro ctx p ⟨hidle, rfl⟩
  obtain ⟨p', hasked⟩ : ∃ p', asked (.running (uarIndex ctx) 0) (payload 1).toInt = some p' := by
    unfold asked
    by_cases hpos : 0 < (payload 1).toInt
    · exact ⟨_, (if_neg (not_not_intro rfl)).trans (if_pos hpos)⟩
    · exact ⟨_, (if_neg (not_not_intro rfl)).trans (if_neg hpos)⟩
  have hread : Follows D (recordRequest payload) ctx (.running (uarIndex ctx) 0) fun _ ctx' p'' =>
      (CMD.Idle ctx'.hca.args ∧ uarIndex ctx' = uarIndex ctx) ∧ p'' = p' :=
    obeys_recordRequest hasked fun _ => ⟨⟨hidle, rfl⟩, rfl⟩
  refine hread.bind ?_
  rintro _ ctx₁ _ ⟨⟨hidle₁, huar₁⟩, rfl⟩
  have huar := leaves_handlePageRequest (D := D) (f := uarIndex) (fun _ _ => rfl) (fun _ _ => rfl)
    (fun _ _ => rfl) payload
  refine ((handlePageRequest_follows hidle₁ payload hasked).and_ends (huar ctx₁)).mono ?_
    fun _ _ _ _ => trivial
  rintro _ ctx' p'' ⟨⟨hidle', rfl⟩, huar'⟩
  exact ⟨hidle', by rw [huar', huar₁]⟩

end Driver

end L4Rdma
