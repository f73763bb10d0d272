import L4Rdma.Driver.Talk

/-!
# The life of the device

The device has to be told things in a certain order: it is enabled, given the pages that it asks for,
initialized, used, and shut down in the reverse order. `Phase` has the steps of this life, with what
has to be remembered between two messages, and `next` what may come in each of them: `goal` has the
commands, and `asked` the page requests, which are read only while the device is used, one at a time.
`init_hca` keeps to it: it takes the device from its first phase to the one in which it can be used,
whatever the device replies and whatever the kernel does (`initHca_obeys`). In particular it provides
exactly the pages that the device has asked for before the next command, and after a command that the
device does not accept there are no more commands.
-/

namespace L4Rdma.Driver

open Lib Device

variable {δ : Type}

/-! ## Phases -/

/-- Where the device is in its life. -/
inductive Phase
  /-- It has not been enabled. -/
  | down
  | enabled
  | issiKnown
  | issiSet
  /-- The device needs this number of pages to boot. -/
  | boot (owed : ℤ)
  /-- Whether it wants to know the version of the driver. -/
  | capsKnown (set_driver : Bool)
  | capsSet (set_driver : Bool)
  /-- It needs this number of pages to initialize. -/
  | init (set_driver : Bool) (owed : ℤ)
  | up (set_driver : Bool)
  /-- It can be used, has allocated this UAR page, and waits for this number of pages. -/
  | running (uar : Word) (owed : ℤ)
  /-- It has offered this number of pages. -/
  | calling (uar : Word) (count : ℤ)
  /-- Its event queues are being destroyed. -/
  | destroying (uar : Word)
  | quiesced
  /-- Its pages are being taken back, and whether it has said that it has no more of them. -/
  | torn (drained : Bool)
  /-- It has been disabled. -/
  | off
  /-- It has not accepted a command. -/
  | refused
  deriving DecidableEq

/-- A command of the driver with a short payload. -/
def say (opcode : CMD.OPCODE) (op_mod : Word) (payload : List Word) (output_length : ℕ) :
    CMD.Command := ⟨opcode.value, op_mod, payload, output_length⟩

/-- The command has this number and these lengths. -/
def Like (c : CMD.Command) (opcode : CMD.OPCODE) (payload_length output_length : ℕ) : Prop :=
  c.opcode = opcode.value ∧ c.payload.length = payload_length ∧ c.output_length = output_length

/-- Whether a command has this number and these lengths can be evaluated. -/
instance (c : CMD.Command) (opcode : CMD.OPCODE) (payload_length output_length : ℕ) :
    Decidable (Like c opcode payload_length output_length) :=
  inferInstanceAs (Decidable (_ ∧ _ ∧ _))

/-- The number of pages that a command provides. Its payload says so, and has two words for each. -/
def pagesOf (c : CMD.Command) : ℕ := (c.payload.getD 1 0).toNat

/-- The command provides some of the pages that are owed. -/
def Provides (c : CMD.Command) (owed : ℤ) : Prop :=
  Like c .MANAGE_PAGES (2 + pagesOf c * 2) 2 ∧ c.op_mod = 1 ∧ 1 ≤ pagesOf c ∧
    (pagesOf c : ℤ) ≤ owed

/-- So can whether it provides pages that are owed. -/
instance (c : CMD.Command) (owed : ℤ) : Decidable (Provides c owed) :=
  inferInstanceAs (Decidable (_ ∧ _ ∧ _ ∧ _))

/-- The command takes this number of pages back. If they are not too many, the output has room for their
addresses. -/
def Reclaims (c : CMD.Command) (count : ℤ) : Prop :=
  c.opcode = CMD.OPCODE.MANAGE_PAGES.value ∧ c.op_mod = 2 ∧ c.payload = [0, BitVec.ofInt 32 count] ∧
    (count ≤ 3200 → c.output_length = 2 + 2 * count.toNat)

/-- So can whether it takes pages back. -/
instance (c : CMD.Command) (count : ℤ) : Decidable (Reclaims c count) :=
  inferInstanceAs (Decidable (_ ∧ _ ∧ _ ∧ _))

/-- The commands for queues. -/
def forQueues : List CMD.OPCODE := [.CREATE_EQ, .QUERY_EQ, .CREATE_CQ, .ALLOC_PD, .DEALLOC_PD]

/-- The phase that a command leads to if the device accepts it, and none if the command may not come. -/
def goal : Phase → CMD.Exchange → Option Phase
  | .down, (c, _) => if c = say .ENABLE_HCA 0 [] 0 then some .enabled else none
  | .enabled, (c, _) => if c = say .QUERY_ISSI 0 [] 26 then some .issiKnown else none
  | .issiKnown, (c, _) => if c = say .SET_ISSI 0 [1] 0 then some .issiSet else none
  | .issiSet, (c, r) => if c = say .QUERY_PAGES 1 [] 2 then some (.boot (r.output 1).toInt) else none
  | .boot owed, (c, r) =>
    if Provides c owed then some (.boot (owed - pagesOf c))
    else if owed = 0 ∧ c = say .QUERY_HCA_CAP 0 [0] 406 then
      some (.capsKnown (r.output 21 >>> 30 &&& 0x1 ≠ 0))
    else none
  | .capsKnown set_driver, (c, _) =>
    if Like c .SET_HCA_CAP 406 2 then some (.capsSet set_driver) else none
  | .capsSet set_driver, (c, r) =>
    if c = say .QUERY_PAGES 2 [] 2 then some (.init set_driver (r.output 1).toInt) else none
  | .init set_driver owed, (c, _) =>
    if Provides c owed then some (.init set_driver (owed - pagesOf c))
    else if owed = 0 ∧ c = say .INIT_HCA 0 [] 0 then some (.up set_driver)
    else none
  | .up true, (c, _) => if Like c .SET_DRIVER_VERSION 18 0 then some (.up false) else none
  | .up false, (c, r) => if c = say .ALLOC_UAR 0 [] 2 then some (.running (r.output 0) 0) else none
  | .running uar owed, (c, _) =>
    if Provides c owed then some (.running uar (owed - pagesOf c))
    else if owed = 0 ∧ c.opcode ∈ forQueues.map CMD.OPCODE.value then some (.running uar 0)
    else if owed = 0 ∧ c.opcode = CMD.OPCODE.DESTROY_EQ.value then some (.destroying uar)
    else if owed = 0 ∧ c = say .DEALLOC_UAR 0 [uar, 0] 0 then some .quiesced
    else none
  | .calling uar count, (c, _) => if Reclaims c count then some (.running uar 0) else none
  | .destroying uar, (c, _) =>
    if c.opcode = CMD.OPCODE.DESTROY_EQ.value then some (.destroying uar)
    else if c = say .DEALLOC_UAR 0 [uar, 0] 0 then some .quiesced
    else none
  | .quiesced, (c, _) => if c = say .TEARDOWN_HCA 0 [] 0 then some (.torn false) else none
  | .torn false, (c, r) => if c = reclaimCommand 3200 then some (.torn (r.output 0 = 0)) else none
  | .torn true, (c, _) => if c = say .DISABLE_HCA 0 [] 0 then some .off else none
  | .off, _ => none
  | .refused, _ => none

/-- The phase that a page request leads to. The device asks for pages, or it offers some of those that it
has. Nothing else may be going on then. -/
def asked : Phase → ℤ → Option Phase
  | .running uar owed, num_pages =>
    if owed ≠ 0 then none
    else if 0 < num_pages then some (.running uar num_pages)
    else some (.calling uar (-num_pages))
  | _, _ => none

/-- The phase after a message. -/
def next (p : Phase) : Message → Option Phase
  | .exchange e => (goal p e).map fun p' => if e.2.Accepted then p' else .refused
  | .request num_pages => asked p num_pages

variable {D : CMD.HCA δ} {ctx ctx' : MLX5_Context δ} {payload : Buf}
  {payload_length output_length : ℕ} {p p' : Phase} {uar : Word}

/-- A command that may come leads to the phase after it, or to the one in which nothing may come. -/
theorem next_of_goal {c : CMD.Command} {r : CMD.Reply} (h : goal p (c, r) = some p') :
    next p (.exchange (c, r)) = some (if r.Accepted then p' else .refused) := by
  show (goal p (c, r)).map _ = _
  rw [h]
  rfl

/-- A program obeys the order of the commands, with a postcondition for the case that it returns. -/
abbrev Follows {α : Type} (D : CMD.HCA δ) (x : Exec (MLX5_Context δ) α) (ctx : MLX5_Context δ) (p : Phase)
    (R : α → MLX5_Context δ → Phase → Prop) : Prop :=
  Obeys (talk D) next x ctx p R fun _ _ _ => True

/-- The rule of consequence. -/
theorem Follows.mono {α : Type} {x : Exec (MLX5_Context δ) α} {R R' : α → MLX5_Context δ → Phase → Prop}
    (h : Follows D x ctx p R) (hR : ∀ a ctx' p', R a ctx' p' → R' a ctx' p') : Follows D x ctx p R' :=
  Obeys.mono h hR fun _ _ _ _ => trivial

/-- The same for a program that stops only with an exception. -/
abbrev Abides {α : Type} (D : CMD.HCA δ) (x : Exec (MLX5_Context δ) α) (ctx : MLX5_Context δ) (p : Phase)
    (R : α → MLX5_Context δ → Phase → Prop) : Prop :=
  Obeys (talk D) next x ctx p R fun err _ _ => ∃ what, err = .thrown what

/-- A program that abides by the order obeys it. -/
theorem Abides.follows {α : Type} {x : Exec (MLX5_Context δ) α} {R : α → MLX5_Context δ → Phase → Prop}
    (h : Abides D x ctx p R) : Follows D x ctx p R :=
  Obeys.mono h (fun _ _ _ hR => hR) fun _ _ _ _ => trivial

/-- A command that may come next. -/
theorem abides_issue (hidle : CMD.Idle ctx.hca.args)
    (hfits : CMD.Fits payload payload_length output_length) (opcode : CMD.OPCODE) (op_mod : Word)
    (hgoal : let c := CMD.command opcode op_mod payload payload_length output_length
      goal p (c, ctx.hca.reply D c) = some p') :
    Abides D (hcaLens.zoom (CMD.issue D opcode op_mod payload payload_length output_length)) ctx p
      fun slot ctx' p'' => p'' = p' ∧ ctx' = { ctx with hca := ctx'.hca } ∧
        CMD.Issued slot output_length (ctx.hca.reply D
          (CMD.command opcode op_mod payload payload_length output_length)) ctx'.hca := by
  have hobeys := obeys_hca next
    (CMD.obeys_issue D hidle hfits opcode op_mod (next_of_goal hgoal))
  refine Obeys.mono hobeys ?_ fun _ _ _ h => h.1
  rintro slot ctx' p'' ⟨hctx, hphase, hissued⟩
  exact ⟨hphase, hctx, hissued⟩

/-- A program that says nothing. -/
theorem follows_of_leaves {α : Type} {x : Exec (MLX5_Context δ) α} (hx : Leaves spoken x) :
    Follows D x ctx p fun _ ctx' p' => p' = p ∧ spoken ctx' = spoken ctx := by
  exact obeys_of_leaves said_nil hx (fun a ctx' heq => ⟨rfl, heq⟩) fun _ _ _ => trivial

/-! ## What says nothing -/

/-- Reading an array of words leaves everything. -/
theorem leaves_read {τ : Type} {σ : Type} {f : σ → τ} (b : Buf) (i : ℕ) :
    Leaves f (b.read i : Exec σ Word) := leaves_ite (leaves_pure _) (leaves_throw _)

/-- `get_cmd_output` only reads. -/
theorem leaves_getCmdOutput (slot : ℕ) (output : Buf) (output_length : ℕ) :
    Leaves id (CMD.getCmdOutput slot output output_length) := by
  have hwrite : ∀ (b : Buf) (i : ℕ) (w : Word), Leaves id (b.write i w : Exec CMD.CMD_Args Buf) :=
    fun b i w => leaves_ite (leaves_pure _) (leaves_throw _)
  have hmail : ∀ m (b : Buf) start length, Leaves id (CMD.unpackMail m b start length) := by
    intro m b start length
    unfold CMD.unpackMail
    refine (leaves_forRange fun i c => ?_).bind fun c => leaves_pure _
    unfold CMD.unpackWord
    exact leaves_get.bind fun a => leaves_ite ((hwrite _ _ _).bind fun _ => leaves_pure _) (leaves_throw _)
  unfold CMD.getCmdOutput
  refine leaves_get.bind fun a => leaves_ite (leaves_pure _) ?_
  refine (hwrite _ _ _).bind fun b => leaves_ite ?_ (leaves_pure _)
  exact (hwrite _ _ _).bind fun b => leaves_ite (hmail _ _ _ _) (leaves_pure _)

/-- The command arguments are a part of the context. -/
theorem argsLens_lawful : (argsLens (δ := δ)).Lawful := ⟨fun _ _ => rfl, fun _ _ _ => rfl, fun _ => rfl⟩

/-- Taking an output leaves the whole context. -/
theorem leaves_takeOutput {τ : Type} (f : MLX5_Context δ → τ) (slot : ℕ) (output : Buf)
    (output_length : ℕ) :
    Leaves f (argsLens.zoom (CMD.getCmdOutput slot output output_length)) :=
  (Leaves.zoom_id argsLens_lawful (leaves_getCmdOutput slot output output_length)).comp f

/-- So does finding a version in one. -/
theorem leaves_getIssiSupport {τ : Type} (f : MLX5_Context δ → τ) (slot : ℕ) :
    Leaves f (getIssiSupport slot : Exec (MLX5_Context δ) Word) := by
  have hloop : ∀ (b : Buf) (k : ℕ) (count : Word),
      Leaves f (issiLoop b k count : Exec (MLX5_Context δ) (Word × Word)) := by
    intro b k
    induction k with
    | zero => exact fun count => leaves_pure _
    | succ k ih => exact fun count => (leaves_read b _).bind fun w => leaves_ite (leaves_pure _) (ih _)
  unfold getIssiSupport
  refine leaves_get.bind fun ctx => (leaves_takeOutput f slot _ _).bind fun b => ?_
  exact (hloop b _ _).bind fun r => leaves_pure _

/-! ## Initialization -/

/-- The array of `provide_pages`, in which the number of pages has been written. -/
def Numbered (ctx₀ : MLX5_Context δ) (count : ℕ) (b : Buf) (ctx : MLX5_Context δ) : Prop :=
  b.size = IMB_MAX_PAGE_PAYLOAD ∧ b.word 1 = BitVec.ofNat 32 count ∧ spoken ctx = spoken ctx₀

/-- Whatever page it is, it does not change the number of pages. -/
theorem providePage_numbered {ctx₀ : MLX5_Context δ} {count j : ℕ} {b : Buf}
    (h : Numbered ctx₀ count b ctx) :
    Ends (providePage j b) ctx (Numbered ctx₀ count) fun _ ctx' => spoken ctx' = spoken ctx₀ := by
  obtain ⟨hsize, hcount, hspoken⟩ := h
  have hmem : ∀ {α : Type} (x : Exec MEM.State α),
      Leaves spoken (memLens.zoom x : Exec (MLX5_Context δ) α) := leaves_zoom fun _ _ => rfl
  have hwrite : ∀ {b : Buf} (i : ℕ) (w : Word) {ctx : MLX5_Context δ}, 2 ≤ i → Numbered ctx₀ count b ctx →
      Ends (b.write i w) ctx (Numbered ctx₀ count) fun _ ctx' => spoken ctx' = spoken ctx₀ := by
    rintro b i w ctx hi ⟨hsize, hcount, hspoken⟩
    unfold Buf.write
    split_ifs
    · refine ends_pure ⟨hsize, ?_, hspoken⟩
      rw [← hcount]
      exact Function.update_of_ne (show 1 ≠ i by omega) w b.word
    · exact ends_of_error rfl hspoken
  unfold providePage
  refine Ends.bind ((hmem _ ctx).mono (fun _ _ h => h.trans hspoken) fun _ _ h => h.trans hspoken) ?_
  intro mp ctx₁ h₁
  refine Ends.bind ((hmem _ ctx₁).mono (fun _ _ h => h.trans h₁) fun _ _ h => h.trans h₁) ?_
  intro blk ctx₂ h₂
  exact Ends.bind (hwrite _ _ (by omega) ⟨hsize, hcount, h₂⟩) fun b' ctx₃ h₃ =>
    hwrite _ _ (by omega) h₃

/-- The loop that takes the pages of a command says nothing. -/
theorem pageLoop_follows {count : ℕ} {b : Buf} (h : Numbered ctx count b ctx) :
    Follows D (forRange count b providePage) ctx p
      fun b' ctx' p' => p' = p ∧ Numbered ctx count b' ctx' := by
  have hloop : Ends (forRange count b providePage) ctx (Numbered ctx count)
      fun _ ctx' => spoken ctx' = spoken ctx :=
    ends_forRange (fun _ => Numbered ctx count) h fun j b' ctx' _ hb' => providePage_numbered hb'
  refine obeys_of_silent (hloop.mono (fun b' ctx' hb' => ?_) fun _ ctx' heq => ?_)
  · exact ⟨said_nil hb'.2.2, rfl, hb'⟩
  · exact ⟨said_nil heq, trivial⟩

/-- The phases in which the device waits for pages. -/
def IsOwing (mk : ℤ → Phase) : Prop :=
  ∀ (owed : ℤ) c r, Provides c owed → goal (mk owed) (c, r) = some (mk (owed - pagesOf c))

/-- Pages are owed for booting. -/
theorem isOwing_boot : IsOwing .boot := fun _ _ _ h => if_pos h

/-- They are owed for initializing. -/
theorem isOwing_init (set_driver : Bool) : IsOwing (.init set_driver) := fun _ _ _ h => if_pos h

/-- They are owed after a page request. -/
theorem isOwing_running (uar : Word) : IsOwing (.running uar) := fun _ _ _ h => if_pos h

/-- The command of one round of `provide_pages` provides as many pages as it says. -/
theorem provides_command {count : ℕ} {b : Buf} (hcount : b.word 1 = BitVec.ofNat 32 count)
    (hpos : 1 ≤ count) (hle : count ≤ 3200) {owed : ℤ} (howed : (count : ℤ) ≤ owed) :
    let c := CMD.command .MANAGE_PAGES 0x1 b (2 + count * 2) 2
    Provides c owed ∧ pagesOf c = count := by
  intro c
  have hpages : pagesOf c = count := by
    show (((List.range (2 + count * 2)).map b.word).getD 1 0).toNat = count
    rw [List.getD_eq_getElem?_getD, List.getElem?_map, List.getElem?_range (by omega)]
    show (b.word 1).toNat = count
    rw [hcount, BitVec.toNat_ofNat, Nat.mod_eq_of_lt (by omega)]
  refine ⟨⟨⟨rfl, ?_, rfl⟩, rfl, ?_, ?_⟩, hpages⟩
  · rw [hpages]
    show ((List.range (2 + count * 2)).map b.word).length = _
    rw [List.length_map, List.length_range]
  · rw [hpages]
    exact hpos
  · rw [hpages]
    exact howed

/-- The invariant of the loop of `provide_pages` before round `i`: the pages of the rounds before it
are not owed any more. -/
def Owing (mk : ℤ → Phase) (page_count i : ℕ) (b : Buf) (ctx : MLX5_Context δ) (p : Phase) : Prop :=
  b.size = IMB_MAX_PAGE_PAYLOAD ∧ CMD.Idle ctx.hca.args ∧
    p = mk (page_count - min (i * 3200) page_count : ℕ)

/-- One round provides its pages, whatever pages they are. -/
theorem provideBatch_follows {mk : ℤ → Phase} (hmk : IsOwing mk) {page_count i : ℕ} {b : Buf}
    (hP : page_count < 2 ^ 31) (hi : i < cmdCount page_count) (h : Owing mk page_count i b ctx p) :
    Follows D (provideBatch D page_count i b) ctx p (Owing mk page_count (i + 1)) := by
  obtain ⟨hsize, hidle, hphase⟩ := h
  have hle := payloadPageCount_le page_count i
  have hpos := payloadPageCount_pos hP hi
  have hsum := min_add_payloadPageCount hP hi
  unfold provideBatch
  generalize payloadPageCount page_count i = count at hle hpos hsum
  have hlarge : 1 < b.size := by
    rw [hsize]
    norm_num
  refine Obeys.bind_of_ok (Buf.write_of_lt (Nat.lt_of_succ_lt hlarge) _ ctx) ?_
  refine Obeys.bind_of_ok (Buf.write_of_lt (by exact hlarge) _ ctx) ?_
  generalize hb₁ : (⟨b.size, Function.update _ 1 (BitVec.ofNat 32 count)⟩ : Buf) = b₁
  have hnumbered : Numbered ctx count b₁ ctx := by
    subst hb₁
    exact ⟨hsize, by simp, rfl⟩
  refine (pageLoop_follows hnumbered).bind ?_
  rintro b' ctx' p' ⟨rfl, hsize', hcount, hspoken⟩
  -- The loop over the pages says nothing, and the number in the payload is that of the batch.
  have hhca : ctx'.hca = ctx.hca := congrArg Prod.fst hspoken
  have hfits : CMD.Fits b' (2 + count * 2) 2 := by
    have hsize'' : b'.size = 2 + 128 * 50 := hsize'
    refine ⟨?_, ?_, ?_⟩
    · unfold CMD.IMB_MAX_DATA CMD.MBB_MAX_COUNT
      omega
    · omega
    · norm_num
  -- The command provides the pages of this batch, which are owed.
  have hleft : (count : ℤ) ≤ (page_count - min (i * 3200) page_count : ℕ) := by omega
  obtain ⟨hprovides, hpages⟩ := provides_command (b := b') hcount hpos hle hleft
  -- What is owed then are the pages of the other batches.
  have howed : ((page_count - min (i * 3200) page_count : ℕ) : ℤ) - (count : ℕ) =
      (page_count - min ((i + 1) * 3200) page_count : ℕ) := by omega
  have hgoal : ∀ r, goal p' (CMD.command .MANAGE_PAGES 0x1 b' (2 + count * 2) 2, r) =
      some (mk (page_count - min ((i + 1) * 3200) page_count : ℕ)) := fun r => by
    rw [hphase, hmk _ _ r hprovides, hpages, howed]
  refine (abides_issue (hhca ▸ hidle) hfits .MANAGE_PAGES 0x1 (hgoal _)).follows.bind ?_
  rintro slot ctx'' p'' ⟨rfl, hctx, hissued⟩
  exact obeys_pure ⟨hsize', hissued.idle, rfl⟩

/-- `provide_pages` provides exactly the pages that are owed. -/
theorem providePages_follows {mk : ℤ → Phase} (hmk : IsOwing mk) {page_count : ℕ}
    (hP : page_count < 2 ^ 31) (hidle : CMD.Idle ctx.hca.args) :
    Follows D (providePages D page_count) ctx (mk page_count)
      fun _ ctx' p' => CMD.Idle ctx'.hca.args ∧ p' = mk 0 := by
  have hstart : Owing mk page_count 0 ⟨IMB_MAX_PAGE_PAYLOAD, ctx.uninit⟩ ctx (mk page_count) := by
    refine ⟨rfl, hidle, ?_⟩
    rw [Nat.zero_mul, Nat.zero_min, Nat.sub_zero]
  unfold providePages
  refine Obeys.bind_of_ok (get_apply ctx) ?_
  refine (obeys_forRange (Owing mk page_count) hstart fun i b ctx' p' hi h =>
    provideBatch_follows hmk hP hi h).bind ?_
  rintro b ctx' p' ⟨-, hidle', hphase⟩
  rw [min_cmdCount hP, Nat.sub_self] at hphase
  exact obeys_pure ⟨hidle', hphase⟩

/-- A command without a payload. -/
theorem fits_nil {n : ℕ} (hn : n ≤ 2 + CMD.OMB_MAX_DATA) : CMD.Fits (Buf.ofList []) 0 n :=
  ⟨Nat.zero_le _, Nat.le_refl 0, hn⟩

/-- The number of pages is the second word of the output. -/
theorem getNumberOfPages_ok {slot : ℕ} {r : CMD.Reply}
    (h : CMD.Answered ctx.hca.args slot QUERY_PAGES_OUTPUT_LENGTH r) :
    getNumberOfPages slot ctx = .ok (r.output 1).toInt ctx := by
  have hroom : QUERY_PAGES_OUTPUT_LENGTH ≤ (⟨QUERY_ISSI_OUTPUT_LENGTH, ctx.uninit⟩ : Buf).size :=
    show 2 ≤ 26 by norm_num
  obtain ⟨pages_out, hget, hsize, hwords⟩ := CMD.getCmdOutput_ok h (by norm_num) hroom
  have hget' : argsLens.zoom (CMD.getCmdOutput slot ⟨QUERY_ISSI_OUTPUT_LENGTH, ctx.uninit⟩
      QUERY_PAGES_OUTPUT_LENGTH) ctx = .ok pages_out ctx := Lens.zoom_of_ok hget
  have hread : pages_out.read 1 ctx = .ok (pages_out.word 1) ctx :=
    Buf.read_of_lt (by rw [hsize]; show 1 < 26; norm_num) ctx
  unfold getNumberOfPages
  rw [get_bind, bind_of_ok hget', bind_of_ok hread, hwords 1 (by norm_num)]
  rfl

/-- The device is asked for a number of pages, and given exactly this many. -/
theorem provideQueriedPages_follows {mk : ℤ → Phase} (hmk : IsOwing mk) {op_mod : Word}
    (hidle : CMD.Idle ctx.hca.args)
    (hgoal : ∀ r, goal p (CMD.command .QUERY_PAGES op_mod (Buf.ofList []) 0 2, r) =
      some (mk (r.output 1).toInt)) :
    Follows D (provideQueriedPages D op_mod) ctx p
      fun _ ctx' p' => CMD.Idle ctx'.hca.args ∧ p' = mk 0 := by
  unfold provideQueriedPages
  refine (abides_issue hidle (fits_nil (by norm_num)) .QUERY_PAGES op_mod (hgoal _)).follows.bind ?_
  rintro slot ctx' p' ⟨rfl, -, hissued⟩
  refine Obeys.bind_of_ok (getNumberOfPages_ok hissued.answered) ?_
  generalize (ctx.hca.reply D (CMD.command .QUERY_PAGES op_mod (Buf.ofList []) 0
    QUERY_PAGES_OUTPUT_LENGTH)).output 1 = w
  by_cases hneg : w.toInt < 0
  · rw [if_pos hneg]
    exact obeys_throw trivial
  · rw [if_neg hneg]
    have hlt : w.toInt.toNat < 2 ^ 31 := by
      have hint := BitVec.toInt_lt (x := w)
      omega
    have hcast : ((w.toInt.toNat : ℕ) : ℤ) = w.toInt := Int.toNat_of_nonneg (by omega)
    rw [← hcast]
    refine (providePages_follows hmk hlt hissued.idle).bind ?_
    intro _ ctx'' p'' h
    exact obeys_pure h

/-- `configure_issi` always chooses version 1. -/
theorem configureIssi_abides (hidle : CMD.Idle ctx.hca.args) :
    Abides D (configureIssi D) ctx .enabled
      fun _ ctx' p' => CMD.Idle ctx'.hca.args ∧ p' = .issiSet := by
  have hquery : ∀ r, goal .enabled (CMD.command .QUERY_ISSI 0x0 (Buf.ofList []) 0
      QUERY_ISSI_OUTPUT_LENGTH, r) = some .issiKnown := fun r => by
    unfold goal
    exact if_pos rfl
  have hset : ∀ r, goal .issiKnown (CMD.command .SET_ISSI 0x0 (Buf.ofList [1]) 1
      SET_ISSI_OUTPUT_LENGTH, r) = some .issiSet := fun r => by
    unfold goal
    exact if_pos rfl
  unfold configureIssi
  refine (abides_issue hidle (fits_nil (by norm_num)) .QUERY_ISSI 0x0 (hquery _)).bind ?_
  rintro slot ctx' p' ⟨rfl, -, hissued⟩
  obtain ⟨issi, hne, hsupport⟩ := getIssiSupport_ne_zero hissued.answered
  refine Obeys.bind_of_ok hsupport ?_
  rw [if_neg hne]
  have hfits : CMD.Fits (Buf.ofList [1]) 1 SET_ISSI_OUTPUT_LENGTH :=
    ⟨by norm_num, Nat.le_refl 1, by norm_num⟩
  refine (abides_issue hissued.idle hfits .SET_ISSI 0x0 (hset _)).bind ?_
  rintro slot' ctx₂ p'' ⟨rfl, -, hissued'⟩
  exact obeys_pure ⟨hissued'.idle, rfl⟩

/-- Only MANAGE_PAGES provides pages. -/
theorem not_provides {c : CMD.Command} {owed : ℤ} (hne : c.opcode ≠ CMD.OPCODE.MANAGE_PAGES.value) :
    ¬ Provides c owed := fun h => hne h.1.1

/-- `configure_hca_cap` may come when no pages are owed, and returns whether the device wants to know
the version of the driver. -/
theorem configureHcaCap_abides (hidle : CMD.Idle ctx.hca.args) :
    Abides D (configureHcaCap D) ctx (.boot 0)
      fun set_driver ctx' p' => CMD.Idle ctx'.hca.args ∧ p' = .capsSet set_driver := by
  -- The query is what may come when no page is owed.
  have hquery : ∀ r, goal (.boot 0) (CMD.command .QUERY_HCA_CAP 0x0 (Buf.ofList [0]) 1
      QUERY_HCA_CAP_OUTPUT_LENGTH, r) = some (.capsKnown (r.output 21 >>> 30 &&& 0x1 ≠ 0)) := fun r => by
    unfold goal
    exact (if_neg (not_provides (by decide))).trans (if_pos ⟨rfl, rfl⟩)
  have hfits : CMD.Fits (Buf.ofList [0]) 1 QUERY_HCA_CAP_OUTPUT_LENGTH :=
    ⟨by norm_num, Nat.le_refl 1, by norm_num⟩
  unfold configureHcaCap
  refine (abides_issue hidle hfits .QUERY_HCA_CAP 0x0 (hquery _)).bind ?_
  rintro slot ctx₁ p' ⟨rfl, -, hissued⟩
  generalize ctx.hca.reply D (CMD.command .QUERY_HCA_CAP 0x0 (Buf.ofList [0]) 1
    QUERY_HCA_CAP_OUTPUT_LENGTH) = r at hissued
  refine Obeys.bind_of_ok (get_apply ctx₁) ?_
  -- The word with the driver version is one of those that are not assigned to.
  have hroom : QUERY_HCA_CAP_OUTPUT_LENGTH ≤ (⟨QUERY_HCA_CAP_OUTPUT_LENGTH, ctx₁.uninit⟩ : Buf).size :=
    Nat.le_refl _
  obtain ⟨out, hget, hsize, hwords⟩ := CMD.getCmdOutput_ok hissued.answered (by norm_num) hroom
  obtain ⟨hca_cap, hfields, hsize', hcap⟩ := configureFields_ok hsize ctx₁
  have hget' : argsLens.zoom (CMD.getCmdOutput slot ⟨QUERY_HCA_CAP_OUTPUT_LENGTH, ctx₁.uninit⟩
      QUERY_HCA_CAP_OUTPUT_LENGTH) ctx₁ = .ok out ctx₁ := Lens.zoom_of_ok hget
  have hread : hca_cap.read (0x4c / 4 + 2) ctx₁ = .ok (hca_cap.word (0x4c / 4 + 2)) ctx₁ :=
    Buf.read_of_lt (by rw [hsize']; norm_num) _
  have hversion : hca_cap.word (0x4c / 4 + 2) = r.output 21 :=
    calc hca_cap.word (0x4c / 4 + 2) = capWord out.word 21 := hcap 21
      _ = out.word 21 := by simp [capWord]
      _ = r.output 21 := hwords 21 (by norm_num)
  refine Obeys.bind_of_ok hget' (Obeys.bind_of_ok hfields (Obeys.bind_of_ok hread ?_))
  have hfits' : CMD.Fits hca_cap QUERY_HCA_CAP_OUTPUT_LENGTH SET_HCA_CAP_OUTPUT_LENGTH :=
    ⟨by norm_num, Nat.le_of_eq hsize'.symm, by norm_num⟩
  -- The capabilities that are set have the same length.
  have hset : ∀ (v : Bool) r', goal (.capsKnown v) (CMD.command .SET_HCA_CAP 0x0 hca_cap
      QUERY_HCA_CAP_OUTPUT_LENGTH SET_HCA_CAP_OUTPUT_LENGTH, r') = some (.capsSet v) := fun v r' => by
    unfold goal
    refine if_pos ⟨rfl, ?_, rfl⟩
    show ((List.range 406).map hca_cap.word).length = 406
    rw [List.length_map, List.length_range]
  refine (abides_issue hissued.idle hfits' .SET_HCA_CAP 0x0 (hset _ _)).bind ?_
  rintro slot' ctx₂ p'' ⟨rfl, -, hissued'⟩
  refine obeys_pure ⟨hissued'.idle, ?_⟩
  rw [hversion]

/-- `set_driver_version`. -/
theorem setDriverVersion_abides (hidle : CMD.Idle ctx.hca.args) :
    Abides D (setDriverVersion D) ctx (.up true)
      fun _ ctx' p' => CMD.Idle ctx'.hca.args ∧ p' = .up false := by
  unfold setDriverVersion
  refine Obeys.bind_of_ok (get_apply ctx) ?_
  generalize (fun i => load32 (driverBytes ctx.uninit) (4 * i)) = word
  have hgoal : ∀ r, goal (.up true) (CMD.command .SET_DRIVER_VERSION 0x0 ⟨18, word⟩ 18
      SET_DRIVER_VERSION_OUTPUT_LENGTH, r) = some (.up false) := fun r => by
    unfold goal
    refine if_pos ⟨rfl, ?_, rfl⟩
    show ((List.range 18).map word).length = 18
    rw [List.length_map, List.length_range]
  have hfits : CMD.Fits ⟨18, word⟩ 18 SET_DRIVER_VERSION_OUTPUT_LENGTH :=
    ⟨by norm_num, Nat.le_refl 18, by norm_num⟩
  refine (abides_issue hidle hfits .SET_DRIVER_VERSION 0x0 (hgoal _)).bind ?_
  rintro slot ctx' p' ⟨rfl, -, hissued⟩
  exact obeys_pure ⟨hissued.idle, rfl⟩

/-- A command within the limits whose first word of output is returned. -/
theorem create_abides (hidle : CMD.Idle ctx.hca.args) (hfits : CMD.Fits payload payload_length 2)
    (opcode : CMD.OPCODE) {mk : CMD.Reply → Phase}
    (hgoal : ∀ r, goal p (CMD.command opcode 0x0 payload payload_length 2, r) = some (mk r)) :
    Abides D (create D opcode payload payload_length) ctx p fun w ctx' p' =>
      CMD.Idle ctx'.hca.args ∧ ∃ r, w = r.output 0 ∧ p' = mk r := by
  unfold create
  refine (abides_issue hidle hfits opcode 0x0 (hgoal _)).bind ?_
  rintro slot ctx₁ p' ⟨rfl, -, hissued⟩
  obtain ⟨out, hget, hsize, hwords⟩ := CMD.getCmdOutput_ok hissued.answered (by norm_num)
    (show 2 ≤ (⟨2, ctx₁.uninit⟩ : Buf).size from Nat.le_refl 2)
  have hget' : argsLens.zoom (CMD.getCmdOutput slot ⟨2, ctx₁.uninit⟩ 2) ctx₁ = .ok out ctx₁ :=
    Lens.zoom_of_ok hget
  have hread : out.read 0 ctx₁ = .ok (out.word 0) ctx₁ := Buf.read_of_lt (by rw [hsize]; norm_num) _
  refine Obeys.bind_of_ok (get_apply ctx₁) (Obeys.bind_of_ok hget' ?_)
  exact ends_of_ok hread ⟨_, Dialogue.leads_refl _ _, hissued.idle, _, hwords 0 (by norm_num), rfl⟩

/-- `alloc_uar` keeps the index of the UAR page that the device has allocated. -/
theorem allocUar_abides (hidle : CMD.Idle ctx.hca.args) (bar0 : ℕ) :
    Abides D (allocUar D bar0) ctx (.up false)
      fun _ ctx' p' => CMD.Idle ctx'.hca.args ∧ p' = .running (uarIndex ctx') 0 := by
  have hgoal : ∀ r, goal (.up false) (CMD.command .ALLOC_UAR 0x0 (Buf.ofList []) 0 2, r) =
      some (.running (r.output 0) 0) := fun r => by
    unfold goal
    exact if_pos rfl
  unfold allocUar
  refine (create_abides hidle (fits_nil (by norm_num)) .ALLOC_UAR hgoal).bind ?_
  rintro index ctx' p' ⟨hidle', r, rfl, rfl⟩
  refine ends_of_ok (modify_apply _ ctx') ⟨_, Dialogue.leads_of_silent (said_nil rfl), hidle', ?_⟩
  -- The index is a word, and is turned into one again.
  show Phase.running (r.output 0) 0 = .running (BitVec.ofNat 32 (r.output 0).toNat) 0
  rw [BitVec.ofNat_toNat, BitVec.setWidth_eq]

/-- The commands of `init_hca` take the device from its first phase to the one in which it can be
used. -/
theorem initSequence_follows (hidle : CMD.Idle ctx.hca.args) (bar0 : ℕ) :
    Follows D (initSequence D bar0) ctx .down
      fun _ ctx' p' => CMD.Idle ctx'.hca.args ∧ p' = .running (uarIndex ctx') 0 := by
  -- The commands that are written out in the function itself, each in its phase.
  have henable : ∀ r, goal .down (CMD.command .ENABLE_HCA 0x0 (Buf.ofList []) 0
      ENABLE_HCA_OUTPUT_LENGTH, r) = some .enabled := fun r => by
    unfold goal
    exact if_pos rfl
  have hboot : ∀ r, goal .issiSet (CMD.command .QUERY_PAGES 0x1 (Buf.ofList []) 0 2, r) =
      some (.boot (r.output 1).toInt) := fun r => by
    unfold goal
    exact if_pos rfl
  have hquery : ∀ v r, goal (.capsSet v) (CMD.command .QUERY_PAGES 0x2 (Buf.ofList []) 0 2, r) =
      some (.init v (r.output 1).toInt) := fun v r => by
    unfold goal
    exact if_pos rfl
  have hinit : ∀ v r, goal (.init v 0) (CMD.command .INIT_HCA 0x0 (Buf.ofList []) 0
      INIT_HCA_OUTPUT_LENGTH, r) = some (.up v) := fun v r => by
    unfold goal
    exact (if_neg (not_provides (by decide))).trans (if_pos ⟨rfl, rfl⟩)
  have hnil : CMD.Fits (Buf.ofList []) 0 0 := fits_nil (by norm_num)
  -- They come one after the other, with those of the other functions between them.
  unfold initSequence
  refine (abides_issue hidle hnil .ENABLE_HCA 0x0 (henable _)).follows.bind ?_
  rintro slot₁ ctx₁ p₁ ⟨rfl, -, hissued₁⟩
  refine (configureIssi_abides hissued₁.idle).follows.bind ?_
  rintro - ctx₂ p₂ ⟨hidle₂, rfl⟩
  refine (provideQueriedPages_follows isOwing_boot hidle₂ hboot).bind ?_
  rintro - ctx₃ p₃ ⟨hidle₃, rfl⟩
  refine (configureHcaCap_abides hidle₃).follows.bind ?_
  rintro set_driver ctx₄ p₄ ⟨hidle₄, rfl⟩
  refine (provideQueriedPages_follows (isOwing_init set_driver) hidle₄ (hquery set_driver)).bind ?_
  rintro - ctx₅ p₅ ⟨hidle₅, rfl⟩
  refine (abides_issue hidle₅ hnil .INIT_HCA 0x0 (hinit set_driver _)).follows.bind ?_
  rintro slot₆ ctx₆ p₆ ⟨rfl, -, hissued₆⟩
  -- The version is sent to a device that wants to know it, and to no other one.
  have hversion : Follows D (doIf (set_driver = true) (setDriverVersion D)) ctx₆ (.up set_driver)
      fun _ ctx' p' => CMD.Idle ctx'.hca.args ∧ p' = .up false := by
    cases set_driver with
    | true => exact (setDriverVersion_abides hissued₆.idle).follows
    | false => exact obeys_pure ⟨hissued₆.idle, rfl⟩
  refine hversion.bind ?_
  rintro - ctx₇ p₇ ⟨hidle₇, rfl⟩
  refine (allocUar_abides hidle₇ bar0).follows.bind ?_
  rintro - ctx₈ p₈ ⟨hidle₈, rfl⟩
  exact ends_of_ok (modify_apply _ ctx₈) ⟨_, Dialogue.leads_of_silent (said_nil rfl), hidle₈, rfl⟩

/-- The context is a part of what `main` has. -/
theorem ctxLens_lawful : (ctxLens (δ := δ)).Lawful := ⟨fun _ _ => rfl, fun _ _ _ => rfl, fun _ => rfl⟩

/-- What the driver and the device have exchanged during the initialization. -/
abbrev bootTalk (D : CMD.HCA δ) : Dialogue (Boot δ) Message := (talk D).through ctxLens

/-- What the commands of `init_hca` obey is obeyed by all of it: what comes before them says nothing. -/
theorem obeys_initHca {P : Type} {next : P → Message → Option P} {p : P}
    {R : MLX5_Context δ → P → Prop} {boot : Boot δ} (bar0 : ℕ)
    (hsequence : Obeys (talk D) next (initSequence D bar0) boot.ctx p (fun _ => R) fun _ _ _ => True) :
    Obeys (bootTalk D) next (initHca D bar0) boot p (fun _ boot' p' => R boot'.ctx p')
      fun _ _ _ => True := by
  -- What leaves the context says nothing.
  have hsilent : ∀ {α : Type} {x : Exec (Boot δ) α} {boot₁ : Boot δ}, Leaves Boot.ctx x →
      Obeys (bootTalk D) next x boot₁ p (fun _ boot' p' => boot'.ctx = boot₁.ctx ∧ p' = p)
        fun _ _ _ => True := by
    intro α x boot₁ hx
    refine obeys_of_leaves (f := Boot.ctx) ?_ hx (fun a boot' heq => ⟨heq, rfl⟩) fun _ _ _ => trivial
    exact fun heq => said_nil (congrArg spoken heq)
  have hwait : Leaves Boot.ctx (initializingLens.zoom initWait : Exec (Boot δ) Unit) :=
    leaves_zoom (fun _ _ => rfl) _
  -- Reading the initialization segment leaves it, also when the values do not fit.
  have hinfo : ∀ w, Leaves Boot.ctx (readCmdqInfo w : Exec (Boot δ) CmdqInfo) := by
    intro w
    unfold readCmdqInfo
    simp only
    split_ifs
    · exact (leaves_throw _).bind fun _ => (leaves_throw _).bind fun _ => leaves_pure _
    · exact (leaves_throw _).bind fun _ => leaves_pure _
    · exact (leaves_throw _).bind fun _ => leaves_pure _
    · exact leaves_pure _
  unfold initHca
  refine (hsilent hwait).bind ?_
  rintro _ boot₁ p₁ ⟨h₁, rfl⟩
  refine Obeys.bind_of_ok (get_apply boot₁) ((hsilent (hinfo _)).bind ?_)
  rintro _ boot₂ p₂ ⟨h₂, rfl⟩
  refine (hsilent (α := PUnit) fun b => ends_of_ok (modify_apply _ b) rfl).bind ?_
  rintro _ boot₃ p₃ ⟨h₃, rfl⟩
  refine (hsilent hwait).bind ?_
  rintro _ boot₄ p₄ ⟨h₄, rfl⟩
  -- So the commands start from the context of before.
  have hsame : boot₄.ctx = boot.ctx := h₄.trans (h₃.trans (h₂.trans h₁))
  have hall := Obeys.zoom ctxLens_lawful (show Obeys (talk D) next (initSequence D bar0) boot₄.ctx p₄
    (fun _ => R) fun _ _ _ => True from hsame ▸ hsequence)
  exact hall.mono (fun _ _ _ h => h.2) fun _ _ _ _ => trivial

/-- Whatever the device replies, however long it initializes, and whatever the kernel does: `init_hca`
tells the device only what may come next, provides the pages that the device asks for exactly before
it goes on, and tells it nothing more once a command has not been accepted. If it returns, the
device can be used, and the driver has the index of its UAR page. -/
theorem initHca_obeys (D : CMD.HCA δ) (bar0 : ℕ) (boot : Boot δ)
    (hidle : CMD.Idle boot.ctx.hca.args) :
    Obeys (bootTalk D) next (initHca D bar0) boot .down
      (fun _ boot' p' => CMD.Idle boot'.ctx.hca.args ∧ p' = .running (uarIndex boot'.ctx) 0)
      fun _ _ _ => True := by
  have hsequence : Follows D (initSequence D bar0) boot.ctx .down
      fun _ ctx' p' => CMD.Idle ctx'.hca.args ∧ p' = .running (uarIndex ctx') 0 :=
    initSequence_follows hidle bar0
  exact obeys_initHca bar0 hsequence

end L4Rdma.Driver
