import L4Rdma.Word
import L4Rdma.Lib.Run

/-!
# The arguments of an interrupt handler

`create_msix_thread` of `server/src/interrupt.cc` puts the arguments of the handler in a variable of its own
and passes the address of it to the new thread. It does not wait for the thread to copy them, as
`page_request_handler` does first. When it has returned the variable is gone, and whatever the creator does
next may use its place.

The creator and the handlers take their steps in any order. The creator's steps are the stores of the
fields, the creation of the thread, the return, and any other write to its stack. A handler's step copies a
field. A handler gets its own arguments, whoever goes on next, exactly as long as the creator writes nothing
else to a place that a handler has still to copy (`safe_iff_spares`).
-/

namespace L4Rdma.Interrupt

open Lib

/-! ## The arguments -/

/-- `L4::Icu::F_msi`. -/
def F_msi : Word := 0x80000000

/-- `IRQH_Args`. Capabilities and pointers are numbers. -/
structure IRQH_Args where
  irq_num : Word
  msix_vec_l4 : Word
  icu : ℕ
  icu_src : BitVec 64
  msix_table : ℕ
  opt : ℕ
  deriving DecidableEq, Repr

/-- The fields of `IRQH_Args`. -/
inductive Field
  | irq_num
  | msix_vec_l4
  | icu
  | icu_src
  | msix_table
  | opt
  deriving DecidableEq, Repr

/-- The fields, in the order in which they are stored. -/
def fields : List Field := [.irq_num, .msix_vec_l4, .icu, .icu_src, .msix_table, .opt]

/-- What a field contains. -/
def IRQH_Args.word (args : IRQH_Args) : Field → ℕ
  | .irq_num => args.irq_num.toNat
  | .msix_vec_l4 => args.msix_vec_l4.toNat
  | .icu => args.icu
  | .icu_src => args.icu_src.toNat
  | .msix_table => args.msix_table
  | .opt => args.opt

/-- The place of a field, from the address of the arguments. -/
def Field.offset : Field → ℕ
  | .irq_num => 0
  | .msix_vec_l4 => 1
  | .icu => 2
  | .icu_src => 3
  | .msix_table => 4
  | .opt => 5

/-- The place of a field in memory. -/
def place (arg : ℕ) (f : Field) : ℕ := arg + f.offset

/-- The arguments that `create_msix_thread` makes of its parameters. -/
def makeArgs (icu_src : BitVec 64) (msix_table : ℕ) (irq_num : Word) (icu opt : ℕ) : IRQH_Args where
  irq_num := irq_num
  msix_vec_l4 := irq_num ||| F_msi
  icu := icu
  icu_src := icu_src
  msix_table := msix_table
  opt := opt

/-! ## The creator and the handlers -/

/-- How far the creator is in `create_msix_thread`. -/
inductive Phase
  /-- It is somewhere else. -/
  | outside
  /-- It stores its arguments at an address, and these fields are left. -/
  | storing (arg : ℕ) (args : IRQH_Args) (rest : List Field)
  /-- It has called `pthread_create`. -/
  | created (arg : ℕ)
  deriving DecidableEq, Repr

/-- A handler: the address that it has been given, what the call that has created it stored there, and what
it has copied so far. -/
structure Handler where
  arg : ℕ
  args : IRQH_Args
  copied : Field → Option ℕ

/-- The creator's stack, the creator, and the handlers by their numbers. -/
structure State where
  mem : ℕ → ℕ
  phase : Phase
  handlers : List Handler

/-- The start. -/
def init : State := ⟨fun _ => 0, .outside, []⟩

/-- What happens. -/
inductive Act
  /-- The creator calls `create_msix_thread`, whose variable is at an address. -/
  | call (arg : ℕ) (icu_src : BitVec 64) (msix_table : ℕ) (irq_num : Word) (icu opt : ℕ)
  /-- It stores the next field. -/
  | store
  /-- It calls `pthread_create`, which creates a thread or fails. -/
  | pthreadCreate (ok : Bool)
  /-- It returns. -/
  | ret
  /-- It writes to any place of its stack but the variable of a call that it is in. -/
  | write (c v : ℕ)
  /-- A handler copies a field. -/
  | copy (h : ℕ) (f : Field)
  deriving DecidableEq, Repr

variable (s : State)

/-- A place of the variable of the call that the creator is in. -/
def Phase.live : Phase → ℕ → Prop
  | .outside, _ => False
  | .storing arg _ _, c => ∃ f ∈ fields, place arg f = c
  | .created arg, c => ∃ f ∈ fields, place arg f = c

/-- Whether a cell is in use by the creator can be evaluated. -/
instance (p : Phase) (c : ℕ) : Decidable (p.live c) :=
  match p with
  | .outside => isFalse id
  | .storing arg _ _ => inferInstanceAs (Decidable (∃ f ∈ fields, place arg f = c))
  | .created arg => inferInstanceAs (Decidable (∃ f ∈ fields, place arg f = c))

/-- `create_msix_thread` is called. -/
def State.call (arg : ℕ) (args : IRQH_Args) : Option State :=
  match s.phase with
  | .outside => some { s with phase := .storing arg args fields }
  | _ => none

/-- The next field is stored. -/
def State.store : Option State :=
  match s.phase with
  | .storing arg args (f :: rest) => some { s with
      mem := Function.update s.mem (place arg f) (args.word f)
      phase := .storing arg args rest }
  | _ => none

/-- `pthread_create`, whose result is not looked at. -/
def State.pthreadCreate (ok : Bool) : Option State :=
  match s.phase with
  | .storing arg args [] => some { s with
      phase := .created arg
      handlers := if ok then s.handlers ++ [⟨arg, args, fun _ => none⟩] else s.handlers }
  | _ => none

/-- `create_msix_thread` returns. -/
def State.ret : Option State :=
  match s.phase with
  | .created _ => some { s with phase := .outside }
  | _ => none

/-- Another write. -/
def State.write (c v : ℕ) : Option State :=
  if s.phase.live c then none else some { s with mem := Function.update s.mem c v }

/-- Handler `h` copies a field, once. -/
def State.copy (h : ℕ) (f : Field) : Option State :=
  s.handlers[h]?.bind fun hd =>
    if hd.copied f = none then
      let copied := Function.update hd.copied f (some (s.mem (place hd.arg f)))
      some { s with handlers := s.handlers.set h { hd with copied := copied } }
    else none

/-- What an act does, if it can happen. -/
def next : Act → Option State
  | .call arg icu_src msix_table irq_num icu opt =>
    s.call arg (makeArgs icu_src msix_table irq_num icu opt)
  | .store => s.store
  | .pthreadCreate ok => s.pthreadCreate ok
  | .ret => s.ret
  | .write c v => s.write c v
  | .copy h f => s.copy h f

/-- One act of a run. -/
def Step (s : State) (a : Act) (s' : State) : Prop := next s a = some s'

/-! ## Whose arguments a handler gets -/

/-- What each handler has copied is what its own call has stored. -/
def Handed (s : State) : Prop :=
  ∀ hd ∈ s.handlers, ∀ f v, hd.copied f = some v → v = hd.args.word f

/-- So it is, and will be if a handler goes on next. -/
structure Safe (s : State) : Prop where
  handed : Handed s
  next : ∀ h f s', Step s (.copy h f) s' → Handed s'

/-- What the creator writes with an act: the place, and the value. -/
def written : Act → Option (ℕ × ℕ)
  | .store =>
    match s.phase with
    | .storing arg args (f :: _) => some (place arg f, args.word f)
    | _ => none
  | .write c v => some (c, v)
  | _ => none

/-- The act does not change a place that a handler has still to copy. -/
def Spares (s : State) (a : Act) : Prop :=
  ∀ c v, written s a = some (c, v) →
    ∀ hd ∈ s.handlers, ∀ f, place hd.arg f = c → hd.copied f = none → v = s.mem c

/-- The invariant of the runs whose acts spare the places of the handlers. -/
structure Inv (s : State) : Prop where
  handed : Handed s
  /-- What is left to copy is still there. -/
  pending : ∀ hd ∈ s.handlers, ∀ f, hd.copied f = none → s.mem (place hd.arg f) = hd.args.word f
  /-- What has been stored is still there. -/
  stored : ∀ arg args rest, s.phase = .storing arg args rest →
    ∀ f, f ∉ rest → s.mem (place arg f) = args.word f

variable {s} {s' : State} {a : Act} {c v : ℕ}

/-- The invariant holds at the start. -/
theorem inv_init : Inv init where
  handed _ hhd := absurd hhd List.not_mem_nil
  pending _ hhd := absurd hhd List.not_mem_nil
  stored _ _ _ hphase := nomatch hphase

/-! ## The fields -/

/-- The list has all fields. -/
theorem mem_fields (f : Field) : f ∈ fields := by
  cases f <;> decide

/-- Different fields are at different places. -/
theorem place_inj {arg : ℕ} {f f' : Field} (h : place arg f = place arg f') : f = f' := by
  have hoffset : f.offset = f'.offset := Nat.add_left_cancel h
  revert hoffset
  cases f <;> cases f' <;> decide

/-! ## What a step does -/

/-- A call begins with nothing stored. -/
theorem call_cases {arg : ℕ} {args : IRQH_Args} (h : s.call arg args = some s') :
    s' = { s with phase := .storing arg args fields } := by
  unfold State.call at h
  split at h
  · exact (Option.some.inj h).symm
  · cases h

/-- The creator stores the next field at its place. -/
theorem store_cases (h : s.store = some s') :
    ∃ arg args f rest, s.phase = .storing arg args (f :: rest) ∧ s' = { s with
      mem := Function.update s.mem (place arg f) (args.word f)
      phase := .storing arg args rest } := by
  unfold State.store at h
  split at h
  · rename_i arg args f rest hphase
    exact ⟨arg, args, f, rest, hphase, (Option.some.inj h).symm⟩
  · cases h

/-- `pthread_create` is called when all fields are stored. -/
theorem pthreadCreate_cases {ok : Bool} (h : s.pthreadCreate ok = some s') :
    ∃ arg args, s.phase = .storing arg args [] ∧ s' = { s with
      phase := .created arg
      handlers := if ok then s.handlers ++ [⟨arg, args, fun _ => none⟩] else s.handlers } := by
  unfold State.pthreadCreate at h
  split at h
  · rename_i arg args hphase
    exact ⟨arg, args, hphase, (Option.some.inj h).symm⟩
  · cases h

/-- A return leaves the function. -/
theorem ret_cases (h : s.ret = some s') : s' = { s with phase := .outside } := by
  unfold State.ret at h
  split at h
  · exact (Option.some.inj h).symm
  · cases h

/-- Other functions write to cells that are not in use. -/
theorem write_cases (h : s.write c v = some s') :
    ¬ s.phase.live c ∧ s' = { s with mem := Function.update s.mem c v } := by
  unfold State.write at h
  split_ifs at h with hlive
  exact ⟨hlive, (Option.some.inj h).symm⟩

/-- A handler copies a field that it has not copied yet, as it is in memory then. -/
theorem copy_cases {h : ℕ} {f : Field} (hcopy : s.copy h f = some s') :
    ∃ hd copied, s.handlers[h]? = some hd ∧ hd.copied f = none ∧
      copied = Function.update hd.copied f (some (s.mem (place hd.arg f))) ∧
      s' = { s with handlers := s.handlers.set h { hd with copied := copied } } := by
  obtain ⟨hd, hhd, hrest⟩ := Option.bind_eq_some_iff.mp hcopy
  split_ifs at hrest with hnone
  exact ⟨hd, _, hhd, hnone, rfl, (Option.some.inj hrest).symm⟩

/-- What an act writes is there afterwards, and the handlers are as they were. -/
theorem written_spec (hstep : Step s a s') (hw : written s a = some (c, v)) :
    s'.mem = Function.update s.mem c v ∧ s'.handlers = s.handlers := by
  unfold Step at hstep
  cases a with
  | store =>
    obtain ⟨arg, args, f, rest, hphase, rfl⟩ := store_cases hstep
    unfold written at hw
    rw [hphase] at hw
    cases hw
    exact ⟨rfl, rfl⟩
  | write c' v' =>
    obtain ⟨-, rfl⟩ := write_cases hstep
    cases hw
    exact ⟨rfl, rfl⟩
  | call => cases hw
  | pthreadCreate => cases hw
  | ret => cases hw
  | copy => cases hw

/-! ## The invariant -/

/-- A write that spares the places of the handlers leaves what they have still to copy. -/
theorem Inv.pending_update (h : Inv s)
    (hspares : ∀ hd ∈ s.handlers, ∀ f, place hd.arg f = c → hd.copied f = none → v = s.mem c) :
    ∀ hd ∈ s.handlers, ∀ f, hd.copied f = none →
      Function.update s.mem c v (place hd.arg f) = hd.args.word f := by
  intro hd hhd f hnone
  have hpending := h.pending hd hhd f hnone
  by_cases hc : place hd.arg f = c
  · rw [hc] at hpending ⊢
    rw [Function.update_self, hspares hd hhd f hc hnone, hpending]
  · rw [Function.update_of_ne hc, hpending]

/-- The next field is stored. -/
theorem Inv.store (h : Inv s) (hstore : s.store = some s') (hspares : Spares s .store) : Inv s' := by
  obtain ⟨arg, args, f, rest, hphase, rfl⟩ := store_cases hstore
  have hwritten : written s .store = some (place arg f, args.word f) := by
    unfold written
    rw [hphase]
  refine ⟨h.handed, h.pending_update (hspares _ _ hwritten), ?_⟩
  intro arg' args' rest' hphase' f' hf'
  obtain ⟨rfl, rfl, rfl⟩ := Phase.storing.inj hphase'
  show Function.update s.mem (place arg f) (args.word f) (place arg f') = args.word f'
  by_cases hf : f' = f
  · rw [hf, Function.update_self]
  · have hne : place arg f' ≠ place arg f := fun heq => hf (place_inj heq)
    rw [Function.update_of_ne hne]
    exact h.stored arg args (f :: rest) hphase f' fun hmem =>
      (List.mem_cons.mp hmem).elim hf hf'

/-- The thread is created. -/
theorem Inv.pthreadCreate (h : Inv s) {ok : Bool} (hcreate : s.pthreadCreate ok = some s') : Inv s' := by
  obtain ⟨arg, args, hphase, rfl⟩ := pthreadCreate_cases hcreate
  -- The new handler has copied nothing, and all its arguments have been stored.
  have hnew : ∀ hd ∈ (if ok then s.handlers ++ [⟨arg, args, fun _ => none⟩] else s.handlers),
      hd ∈ s.handlers ∨ hd = ⟨arg, args, fun _ => none⟩ := by
    intro hd hhd
    split_ifs at hhd
    · exact (List.mem_append.mp hhd).imp_right List.mem_singleton.mp
    · exact .inl hhd
  refine ⟨fun hd hhd f v hv => ?_, fun hd hhd f hnone => ?_, fun _ _ _ hphase' => (nomatch hphase')⟩
  · rcases hnew hd hhd with hold | rfl
    · exact h.handed hd hold f v hv
    · cases hv
  · rcases hnew hd hhd with hold | rfl
    · exact h.pending hd hold f hnone
    · exact h.stored arg args [] hphase f List.not_mem_nil

/-- Something else is written. -/
theorem Inv.write (h : Inv s) (hwrite : s.write c v = some s') (hspares : Spares s (.write c v)) :
    Inv s' := by
  obtain ⟨hlive, rfl⟩ := write_cases hwrite
  refine ⟨h.handed, h.pending_update (hspares c v rfl), ?_⟩
  intro arg args rest hphase f hf
  have hne : place arg f ≠ c := by
    rintro rfl
    have hphase' : s.phase = .storing arg args rest := hphase
    rw [hphase'] at hlive
    exact hlive ⟨f, mem_fields f, rfl⟩
  show Function.update s.mem c v (place arg f) = args.word f
  rw [Function.update_of_ne hne]
  exact h.stored arg args rest hphase f hf

/-- A handler copies a field. -/
theorem Inv.copy (h : Inv s) {n : ℕ} {f : Field} (hcopy : s.copy n f = some s') : Inv s' := by
  obtain ⟨hd, copied, hhd, hnone, hcopied, rfl⟩ := copy_cases hcopy
  have hmem : hd ∈ s.handlers := List.mem_of_getElem? hhd
  have hsame : ∀ f', f' ≠ f → copied f' = hd.copied f' := by
    intro f' hf'
    rw [hcopied, Function.update_of_ne hf']
  have hself : copied f = some (hd.args.word f) := by
    rw [hcopied, Function.update_self, h.pending hd hmem f hnone]
  refine ⟨fun hd' hhd' f' v hv => ?_, fun hd' hhd' f' hnone' => ?_, h.stored⟩
  · rcases List.mem_or_eq_of_mem_set hhd' with hold | rfl
    · exact h.handed hd' hold f' v hv
    · by_cases hf : f' = f
      · subst hf
        exact Option.some.inj (hv.symm.trans hself)
      · exact h.handed hd hmem f' v ((hsame f' hf).symm.trans hv)
  · rcases List.mem_or_eq_of_mem_set hhd' with hold | rfl
    · exact h.pending hd' hold f' hnone'
    · have hf : f' ≠ f := by
        rintro rfl
        exact absurd (hself.symm.trans hnone') (Option.some_ne_none _)
      exact h.pending hd hmem f' ((hsame f' hf).symm.trans hnone')

/-- Acts that spare the places of the handlers keep the invariant. -/
theorem Inv.step (h : Inv s) (hstep : Step s a s') (hspares : Spares s a) : Inv s' := by
  unfold Step at hstep
  cases a with
  | call arg icu_src msix_table irq_num icu opt =>
    obtain rfl := call_cases hstep
    refine ⟨h.handed, h.pending, fun arg' args' rest hphase f hf => ?_⟩
    obtain ⟨-, -, rfl⟩ := Phase.storing.inj hphase
    exact absurd (mem_fields f) hf
  | store => exact h.store hstep hspares
  | pthreadCreate ok => exact h.pthreadCreate hstep
  | ret =>
    obtain rfl := ret_cases hstep
    exact ⟨h.handed, h.pending, fun _ _ _ hphase => nomatch hphase⟩
  | write c v => exact h.write hstep hspares
  | copy n f => exact h.copy hstep

/-- Under the invariant it makes no difference which handler goes on next. -/
theorem Inv.safe (h : Inv s) : Safe s where
  handed := h.handed
  next _ _ _ hstep := (h.copy hstep).handed

/-- After an act that changes a place that a handler has still to copy, that handler copies the wrong
thing if it goes on next. -/
theorem Inv.not_safe (h : Inv s) (hstep : Step s a s') (hspares : ¬ Spares s a) : ¬ Safe s' := by
  unfold Spares at hspares
  push Not at hspares
  obtain ⟨c, v, hwritten, hd, hhd, f, hc, hnone, hne⟩ := hspares
  obtain ⟨hmem, hsame⟩ := written_spec hstep hwritten
  obtain ⟨n, hn⟩ := List.mem_iff_getElem?.mp (hsame ▸ hhd)
  intro hsafe
  let copied := Function.update hd.copied f (some (s'.mem (place hd.arg f)))
  have hcopy : s'.copy n f = some { s' with handlers := s'.handlers.set n { hd with copied := copied } } := by
    unfold State.copy
    rw [hn, Option.bind_some, if_pos hnone]
  have hin : { hd with copied := copied } ∈ s'.handlers.set n { hd with copied := copied } :=
    List.mem_set (List.getElem?_eq_some_iff.mp hn).1 _
  have hword := hsafe.next n f _ hcopy _ hin f v (by
    show copied f = some v
    unfold copied
    rw [Function.update_self, hmem, hc, Function.update_self])
  have hpending := h.pending hd hhd f hnone
  rw [hc] at hpending
  exact hne (hword.trans hpending.symm)

/-- In every run of a creator and the handlers that it creates, every handler gets the arguments of its own
call, whichever of them goes on next, exactly when the creator changes no place that a handler has still to
copy. -/
theorem safe_iff_spares (steps : List (State × Act)) (s : State) (h : Run Step init steps s) :
    Throughout Safe steps s ↔ AllSteps Spares steps :=
  h.all_iff inv_init (fun _ hinv => hinv.safe) (fun _ _ _ hinv hstep hspares => hinv.step hstep hspares)
    fun _ _ _ hinv hstep hbad => hinv.not_safe hstep hbad

/-! ## Two runs -/

/-- Whether an act spares the places of the handlers can be computed. -/
instance (s : State) (a : Act) : Decidable (Spares s a) :=
  decidable_of_iff (∀ w ∈ written s a, ∀ hd ∈ s.handlers, ∀ f ∈ fields,
      place hd.arg f = w.1 → hd.copied f = none → w.2 = s.mem w.1)
    ⟨fun h c v hw hd hhd f => h (c, v) hw hd hhd f (mem_fields f),
      fun h w hw hd hhd f _ => h w.1 w.2 hw hd hhd f⟩

/-- A call for a vector, up to its first store. -/
def enter (irq_num : Word) : Act := .call 100 0x20 0x1000000 irq_num 7 300

/-- A call for a vector, with its stores, up to its return. -/
def wholeCall (irq_num : Word) : List Act :=
  enter irq_num :: (fields.map fun _ => .store) ++ [.pthreadCreate true, .ret]

/-- Two calls whose variables are in the same place. The first handler has copied the two fields that
depend on the vector before the second call stores its own, and copies the other fields between two
stores of it. When both handlers have copied everything, the creator uses the place for something
else. -/
def promptCopy : List Act :=
  let second : List Act := [.copy 0 .irq_num, .copy 0 .msix_vec_l4, enter 1, .store, .store,
    .copy 0 .icu, .copy 0 .icu_src, .copy 0 .msix_table, .copy 0 .opt,
    .store, .store, .store, .store, .pthreadCreate true, .ret]
  let copies : List Act := fields.map (.copy 1)
  wholeCall 0 ++ second ++ copies ++ [.write 100 99]

/-- These acts with the states they are taken in. -/
def promptSteps : List (State × Act) := traceM next init promptCopy

/-- Both handlers get their own arguments. -/
theorem promptCopy_safe : ∃ s, Run Step init promptSteps s ∧ promptSteps.map Prod.snd = promptCopy ∧
    s.handlers.length = 2 ∧ Throughout Safe promptSteps s := by
  have hruns : ((promptCopy.foldlM next init).any fun s => s.handlers.length == 2) = true := by
    decide +kernel
  have hspares : ∀ p ∈ promptSteps, Spares p.1 p.2 := by decide +kernel
  obtain ⟨s, hs, hlength⟩ := (Option.any_eq_true ..).mp hruns
  obtain ⟨hrun, hacts⟩ := run_traceM hs
  exact ⟨s, hrun, hacts, beq_iff_eq.mp hlength, (safe_iff_spares promptSteps s hrun).mpr hspares⟩

/-- A second call, whose variable is in the same place, stores its first field before the handler of the
first one copies that. -/
def reusedFrame : List Act :=
  wholeCall 0 ++ [enter 1, .store, .copy 0 .irq_num]

/-- The first handler takes the vector of the second call for its own. -/
theorem reusedFrame_not_handed : ∃ steps s, Run Step init steps s ∧
    steps.map Prod.snd = reusedFrame ∧ ¬ Throughout Handed steps s := by
  have hbad : ((reusedFrame.foldlM next init).any fun s => s.handlers.any fun hd =>
      hd.copied .irq_num == some 1 && hd.args.word .irq_num == 0) = true := by decide
  obtain ⟨s, hs, hany⟩ := (Option.any_eq_true ..).mp hbad
  obtain ⟨hd, hhd, hboth⟩ := List.any_eq_true.mp hany
  rw [Bool.and_eq_true, beq_iff_eq, beq_iff_eq] at hboth
  obtain ⟨hrun, hacts⟩ := run_traceM hs
  refine ⟨_, s, hrun, hacts, not_throughout fun hhanded => ?_⟩
  have hsame := hhanded hd hhd .irq_num 1 hboth.1
  rw [hboth.2] at hsame
  cases hsame

end L4Rdma.Interrupt
