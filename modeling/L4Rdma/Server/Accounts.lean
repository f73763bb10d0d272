import L4Rdma.Server.Resources

/-!
# The accounts of the workers

What a worker holds on its way is fixed by its phase (`Holds`), whatever the other workers do, since a
step of a worker changes only what is free or its own (`Local`). `effect_of_step` says what each act
does in these terms. It is all that the results about the answers and about what is given back use.
-/

namespace L4Rdma.Resources

open Lib Lib.Ledger Server

/-- What the members of a kind name: the slot and the address of the memory, and the slot of the
gate. -/
def Impl.names (o : Impl) (kind : Kind) : Option ℕ × Option ℕ × Option ℕ :=
  (o.mem kind, o.addr kind, o.obj_cap)

/-- The account of a worker in a phase. The members of its object name what is in it. -/
inductive Holds (kind : Kind) (o : Impl) : Phase → List (Resource × Content) → Prop
  | runThread : o.names kind = (none, none, none) → Holds kind o .runThread []
  | capAlloc : o.names kind = (none, none, none) → Holds kind o .capAlloc []
  | memAlloc {c : ℕ} : o.names kind = (some c, none, none) →
    Holds kind o .memAlloc [(.slot c, .empty)]
  | attach {c d : ℕ} : o.names kind = (some c, none, none) →
    Holds kind o .attach [(.dataspace d, .empty), (.slot c, .dataspace d)]
  | registerObj {c d addr : ℕ} : o.names kind = (some c, some addr, none) →
    Holds kind o .registerObj
      [(.region addr, .dataspace d), (.dataspace d, .empty), (.slot c, .dataspace d)]
  | registered {p : Phase} {c d addr g : ℕ} : p = .notify ∨ p = .notified ∨ p = .loop →
    o.names kind = (some c, some addr, some g) →
    Holds kind o p [(.slot g, .gate), (.region addr, .dataspace d), (.dataspace d, .empty),
      (.slot c, .dataspace d)]

/-- Every worker that has not returned has the account of its phase. -/
structure Books (s : State) : Prop where
  fresh : ∀ d o x, s.held (.dataspace d) = some (o, x) → d < s.fresh
  unborn : ∀ w, s.server.workers.length ≤ w → Account s.held w [] ∧ s.impls w = {}
  dbr : ∀ w, (s.impls w).dbr = none
  worker : ∀ w wk, s.server.workers[w]? = some wk → wk.phase ≠ .returned →
    ∃ l, Account s.held w l ∧ Holds wk.kind (s.impls w) wk.phase l

/-- Only what is free or belongs to `w` changes, and dataspaces that `w` gets are new. -/
structure Local (w : ℕ) (s s' : State) : Prop where
  answers : s'.answers = s.answers
  impls : ∀ v, v ≠ w → s'.impls v = s.impls v
  dbr : (s.impls w).dbr = none → (s'.impls w).dbr = none
  frame : Frame w s.held s'.held
  grows : s.fresh ≤ s'.fresh
  fresh : ∀ d x, s'.held (.dataspace d) = some (w, x) →
    (∃ y, s.held (.dataspace d) = some (w, y)) ∨ s.fresh ≤ d ∧ d < s'.fresh

/-- A step of worker `w`, which is `wk` afterwards. -/
structure Turn (w : ℕ) (wk : Worker) (s s' : State) : Prop extends Local w s s' where
  workers : s'.server.workers = s.server.workers.set w wk
  account : wk.phase ≠ .returned →
    ∃ l, Account s'.held w l ∧ Holds wk.kind (s'.impls w) wk.phase l

/-- What a step does. -/
inductive Effect (s : State) : Act → State → Prop
  /-- A new worker starts. -/
  | create {a : Server.Act} {place : ℕ} {wk : Worker} {server : Server.State} :
    (∀ w ok, a ≠ .call w ok) → server.workers = s.server.workers ++ [wk] → wk.phase = .runThread →
    Effect s (.server a place) { s with server := server }
  /-- The server stops waiting, or replies. -/
  | quiet {a : Server.Act} {place : ℕ} {server : Server.State} :
    (∀ w ok, a ≠ .call w ok) → server.workers = s.server.workers →
    Effect s (.server a place) { s with server := server }
  /-- A call of a worker succeeds. -/
  | succeed {w place : ℕ} {wk wk' : Worker} {s' : State} :
    s.server.workers[w]? = some wk → wk.phase ≠ .loop → wk.phase ≠ .returned →
    wk'.phase ≠ .returned → Turn w wk' s s' → Effect s (.server (.call w true) place) s'
  /-- A call of a worker fails. -/
  | fail {w place : ℕ} {wk : Worker} {s' : State} :
    s.server.workers[w]? = some wk → wk.phase ≠ .loop → wk.phase ≠ .returned →
    Turn w wk.return s s' → s'.held = s.held → Effect s (.server (.call w false) place) s'
  /-- A worker leaves its loop. -/
  | terminate {w place : ℕ} {wk : Worker} {s' : State} :
    s.server.workers[w]? = some wk → wk.phase = .loop → Turn w wk.cleanup.return s s' →
    Account s'.held w [] → Effect s (.server (.terminate w) place) s'
  /-- A worker answers a request. -/
  | get {w : ℕ} {role : Role} {wk : Worker} :
    s.server.workers[w]? = some wk → wk.phase = .loop → wk.kind = role.kind →
    Effect s (.get w role) { s with answers := s.answers ++ [s.answer w role] }

variable {s s' s'' : State} {a : Act} {w v : ℕ} {wk wk' : Worker} {kind : Kind} {place : ℕ}
  {l : List (Resource × Content)}

/-- There are no accounts at the start. -/
theorem books_init : Books init where
  fresh d o x h := by cases h
  unborn w _ := ⟨account_nil.mpr nofun, rfl⟩
  dbr w := rfl
  worker w wk h := by cases h

/-! ## Local steps -/

/-- No step at all is local. -/
theorem Local.refl (w : ℕ) (s : State) : Local w s s where
  answers := rfl
  impls _ _ := rfl
  dbr h := h
  frame := .refl w s.held
  grows := Nat.le_refl _
  fresh _ x h := .inl ⟨x, h⟩

/-- Two local steps of one worker. -/
theorem Local.trans (h : Local w s s') (h' : Local w s' s'') : Local w s s'' where
  answers := h'.answers.trans h.answers
  impls v hv := (h'.impls v hv).trans (h.impls v hv)
  dbr hdbr := h'.dbr (h.dbr hdbr)
  frame := h.frame.trans h'.frame
  grows := h.grows.trans h'.grows
  fresh d x hx := by
    rcases h'.fresh d x hx with ⟨y, hy⟩ | ⟨hle, hlt⟩
    · exact (h.fresh d y hy).imp_right fun hnew => ⟨hnew.1, hnew.2.trans_le h'.grows⟩
    · exact .inr ⟨h.grows.trans hle, hlt⟩

/-- The object of the worker is changed, but not its member `dbr`. -/
theorem local_setImpl {o : Impl} (hdbr : o.dbr = none) : Local w s (s.setImpl w o) where
  answers := rfl
  impls v hv := Function.update_of_ne hv ..
  dbr _ := by
    show (Function.update s.impls w o w).dbr = none
    rw [Function.update_self, hdbr]
  frame := .refl w s.held
  grows := Nat.le_refl _
  fresh _ x h := .inl ⟨x, h⟩

/-- A place that is not a dataspace is taken, or changed if it is the worker's. -/
theorem local_put {p : Resource} {x : Content} (hown : ∀ o y, s.held p = some (o, y) → o = w)
    (hp : ∀ d, p ≠ .dataspace d) : Local w s { s with held := s.held.put p w x } where
  answers := rfl
  impls _ _ := rfl
  dbr h := h
  frame := .put hown
  grows := Nat.le_refl _
  fresh d y h := .inl ⟨y, (put_of_ne (hp d).symm).symm.trans h⟩

/-- A new dataspace is allocated. -/
theorem local_fresh (hfree : s.held (.dataspace s.fresh) = none) : Local w s { s with
    held := s.held.put (.dataspace s.fresh) w .empty
    fresh := s.fresh + 1 } where
  answers := rfl
  impls _ _ := rfl
  dbr h := h
  frame := .put fun o y h => by
    rw [hfree] at h
    cases h
  grows := Nat.le_succ _
  fresh d y h := by
    by_cases hd : d = s.fresh
    · subst hd
      exact .inr ⟨Nat.le_refl _, Nat.lt_succ_self _⟩
    · have hne : Resource.dataspace d ≠ .dataspace s.fresh := fun heq => hd (Resource.dataspace.inj heq)
      exact .inl ⟨y, (put_of_ne hne).symm.trans h⟩

/-- A place of the worker is given back. -/
theorem local_drop {p : Resource} (hown : ∀ o y, s.held p = some (o, y) → o = w) :
    Local w s { s with held := s.held.drop p } where
  answers := rfl
  impls _ _ := rfl
  dbr h := h
  frame := .drop hown
  grows := Nat.le_refl _
  fresh d y h := by
    have h' : s.held.drop p (.dataspace d) = some (w, y) := h
    by_cases hp : Resource.dataspace d = p
    · rw [hp, drop_self] at h'
      cases h'
    · exact .inl ⟨y, (drop_of_ne hp).symm.trans h'⟩

/-- The server goes on meanwhile. -/
theorem Local.withServer (h : Local w s s') (server : Server.State) :
    Local w s { s' with server := server } :=
  ⟨h.answers, h.impls, h.dbr, h.frame, h.grows, h.fresh⟩

/-! ## The calls of a worker -/

/-- The implementation is the one that has been stored. -/
theorem impls_setImpl {o : Impl} : (s.setImpl w o).impls w = o := Function.update_self ..

/-- What the implementation names after it has stored a capability. -/
theorem names_setMem (o : Impl) (kind : Kind) (c : ℕ) :
    (o.setMem kind c).names kind = (some c, o.addr kind, o.obj_cap) := by
  cases kind <;> rfl

/-- What it names after it has stored an address. -/
theorem names_setAddr (o : Impl) (kind : Kind) (addr : ℕ) :
    (o.setAddr kind addr).names kind = (o.mem kind, some addr, o.obj_cap) := by
  cases kind <;> rfl

/-- Storing a capability leaves the doorbell record. -/
theorem dbr_setMem (o : Impl) (kind : Kind) (c : ℕ) : (o.setMem kind c).dbr = o.dbr := by
  cases kind <;> rfl

/-- So does storing an address. -/
theorem dbr_setAddr (o : Impl) (kind : Kind) (addr : ℕ) : (o.setAddr kind addr).dbr = o.dbr := by
  cases kind <;> rfl

/-- The members that an account names, one by one. -/
theorem names_iff {o : Impl} {c addr g : Option ℕ} :
    o.names kind = (c, addr, g) ↔ o.mem kind = c ∧ o.addr kind = addr ∧ o.obj_cap = g := by
  unfold Impl.names
  rw [Prod.mk.injEq, Prod.mk.injEq]

/-- A place that is free may be taken. -/
theorem free_own {p : Resource} (h : s.held p = none) : ∀ o y, s.held p = some (o, y) → o = w := by
  intro o y hp
  rw [h] at hp
  cases hp

/-- What is in a slot that is held. -/
theorem dataspaceIn_of_held {c d : ℕ} (h : s.held (.slot c) = some (w, .dataspace d)) :
    s.dataspaceIn c = some d := by
  unfold State.dataspaceIn
  rw [h]

/-- A slot is taken. -/
theorem capAlloc_cases (hacc : Account s.held w []) (hdbr : (s.impls w).dbr = none)
    (hnames : (s.impls w).names kind = (none, none, none))
    (h : s.capAlloc w kind place = some s') : Local w s s' ∧
      Account s'.held w [(.slot place, .empty)] ∧
      (s'.impls w).names kind = (some place, none, none) := by
  unfold State.capAlloc at h
  split_ifs at h with hfree
  cases h
  obtain ⟨-, haddr, hobj⟩ := names_iff.mp hnames
  have hset : Local w s (s.setImpl w ((s.impls w).setMem kind place)) :=
    local_setImpl ((dbr_setMem ..).trans hdbr)
  refine ⟨hset.trans (local_put (free_own hfree) nofun), hacc.put_free hfree, ?_⟩
  show ((s.setImpl w _).impls w).names kind = _
  rw [impls_setImpl, names_setMem, haddr, hobj]

/-- A new dataspace is put in the slot. -/
theorem memAlloc_cases {c : ℕ} (hacc : Account s.held w [(.slot c, .empty)])
    (hfresh : s.held (.dataspace s.fresh) = none)
    (hnames : (s.impls w).names kind = (some c, none, none))
    (h : s.memAlloc w kind = some s') : Local w s s' ∧
      Account s'.held w [(.dataspace s.fresh, .empty), (.slot c, .dataspace s.fresh)] ∧
      (s'.impls w).names kind = (some c, none, none) := by
  unfold State.memAlloc at h
  rw [(names_iff.mp hnames).1, Option.map_some] at h
  cases h
  have hput := hacc.put_head (x := .dataspace s.fresh)
  have hne : Resource.dataspace s.fresh ≠ .slot c := nofun
  have hfree : s.held.put (.slot c) w (.dataspace s.fresh) (.dataspace s.fresh) = none := by
    rw [put_of_ne hne, hfresh]
  have hslot : Local w s { s with held := s.held.put (.slot c) w (.dataspace s.fresh) } :=
    local_put hacc.own nofun
  exact ⟨hslot.trans (local_fresh hfree), hput.put_free hfree, hnames⟩

/-- The dataspace is attached. -/
theorem attach_cases {c d : ℕ}
    (hacc : Account s.held w [(.dataspace d, .empty), (.slot c, .dataspace d)])
    (hdbr : (s.impls w).dbr = none) (hnames : (s.impls w).names kind = (some c, none, none))
    (h : s.attach w kind place = some s') : Local w s s' ∧
      Account s'.held w
        [(.region place, .dataspace d), (.dataspace d, .empty), (.slot c, .dataspace d)] ∧
      (s'.impls w).names kind = (some c, some place, none) := by
  obtain ⟨hmem, -, hobj⟩ := names_iff.mp hnames
  have hslot : s.held (.slot c) = some (w, .dataspace d) :=
    (hacc.holds _ _).mpr (List.mem_cons_of_mem _ List.mem_cons_self)
  have hin : s.dataspaceIn c = some d := dataspaceIn_of_held hslot
  unfold State.attach at h
  rw [hmem, Option.bind_some, hin, Option.bind_some] at h
  split_ifs at h with hfree
  cases h
  have hset : Local w s (s.setImpl w ((s.impls w).setAddr kind place)) :=
    local_setImpl ((dbr_setAddr ..).trans hdbr)
  refine ⟨hset.trans (local_put (free_own hfree) nofun), hacc.put_free hfree, ?_⟩
  show ((s.setImpl w _).impls w).names kind = _
  rw [impls_setImpl, names_setAddr, hmem, hobj]

/-- The object is registered. -/
theorem registerObj_cases {c addr : ℕ} (hacc : Account s.held w l)
    (hdbr : (s.impls w).dbr = none)
    (hnames : (s.impls w).names kind = (some c, some addr, none))
    (h : s.registerObj w place = some s') : Local w s s' ∧
      Account s'.held w ((.slot place, .gate) :: l) ∧
      (s'.impls w).names kind = (some c, some addr, some place) := by
  unfold State.registerObj at h
  split_ifs at h with hfree
  cases h
  obtain ⟨hmem, haddr, -⟩ := names_iff.mp hnames
  have hset : Local w s (s.setImpl w { s.impls w with obj_cap := some place }) :=
    local_setImpl hdbr
  refine ⟨hset.trans (local_put (free_own hfree) nofun), hacc.put_free hfree, ?_⟩
  show ((s.setImpl w _).impls w).names kind = _
  rw [impls_setImpl]
  cases kind <;> exact names_iff.mpr ⟨hmem, haddr, rfl⟩

/-- The gate's slot is given back. -/
theorem unregisterObj_spec {g : ℕ} (hacc : Account s.held w ((.slot g, .gate) :: l))
    (hdbr : (s.impls w).dbr = none) (hobj : (s.impls w).obj_cap = some g) :
    Local w s (s.unregisterObj w) ∧ Account (s.unregisterObj w).held w l ∧
      (s.unregisterObj w).impls w = { s.impls w with obj_cap := none } := by
  unfold State.unregisterObj
  rw [hobj]
  have hset : Local w s (s.setImpl w { s.impls w with obj_cap := none }) := local_setImpl hdbr
  exact ⟨hset.trans (local_drop hacc.own), hacc.drop_head, impls_setImpl⟩

/-- The region is given back. -/
theorem detach_spec {addr : ℕ} {x : Content} (hacc : Account s.held w ((.region addr, x) :: l))
    (haddr : (s.impls w).addr kind = some addr) : Local w s (s.detach w kind) ∧
      Account (s.detach w kind).held w l ∧ (s.detach w kind).impls = s.impls := by
  unfold State.detach
  rw [haddr]
  exact ⟨local_drop hacc.own, hacc.drop_head, rfl⟩

/-- The dataspace and its slot are given back. -/
theorem free_spec {c d : ℕ}
    (hacc : Account s.held w [(.dataspace d, .empty), (.slot c, .dataspace d)])
    (hmem : (s.impls w).mem kind = some c) :
    Local w s (s.free w kind) ∧ Account (s.free w kind).held w [] := by
  have hslot : s.held (.slot c) = some (w, .dataspace d) :=
    (hacc.holds _ _).mpr (List.mem_cons_of_mem _ List.mem_cons_self)
  have hin : s.dataspaceIn c = some d := dataspaceIn_of_held hslot
  unfold State.free
  rw [hmem]
  dsimp only
  rw [hin]
  have hgone := hacc.drop_head
  have hdrop : Local w s { s with held := s.held.drop (.dataspace d) } := local_drop hacc.own
  exact ⟨hdrop.trans (local_drop hgone.own), hgone.drop_head⟩

/-- A worker that leaves its loop gives everything back. -/
theorem shutDown_spec {c d addr g : ℕ} (hacc : Account s.held w [(.slot g, .gate),
      (.region addr, .dataspace d), (.dataspace d, .empty), (.slot c, .dataspace d)])
    (hdbr : (s.impls w).dbr = none)
    (hnames : (s.impls w).names kind = (some c, some addr, some g)) :
    Local w s (s.shutDown w kind) ∧ Account (s.shutDown w kind).held w [] := by
  obtain ⟨hmem, haddr, hobj⟩ := names_iff.mp hnames
  obtain ⟨hunregister, hacc₁, himpl⟩ := unregisterObj_spec hacc hdbr hobj
  have haddr₁ : ((s.unregisterObj w).impls w).addr kind = some addr := by
    rw [himpl]
    cases kind <;> exact haddr
  have hmem₁ : ((s.unregisterObj w).impls w).mem kind = some c := by
    rw [himpl]
    cases kind <;> exact hmem
  obtain ⟨hdetach, hacc₂, himpls⟩ := detach_spec hacc₁ haddr₁
  rw [← himpls] at hmem₁
  obtain ⟨hfree, hacc₃⟩ := free_spec hacc₂ hmem₁
  exact ⟨((hunregister.trans hdetach).trans hfree).trans (local_setImpl rfl), hacc₃⟩

/-! ## The acts of the server and the workers -/

/-- The phase after a call that succeeds. -/
def afterCall : Phase → Phase
  | .runThread => .capAlloc
  | .capAlloc => .memAlloc
  | .memAlloc => .attach
  | .attach => .registerObj
  | .registerObj => .notify
  | .notify => .notified
  | .notified => .loop
  | .loop => .loop
  | .returned => .returned

/-- A call that succeeds does not make the worker return. -/
theorem afterCall_ne_returned {p : Phase} (h : p ≠ .returned) : afterCall p ≠ .returned := by
  cases p
  case returned => exact h
  all_goals exact nofun

/-- A call of the server's model that succeeds. -/
theorem server_succeed_cases {server : Server.State} (h : s.server.succeed w wk = some server) :
    wk.phase ≠ .loop ∧ wk.phase ≠ .returned ∧ ∃ wk', server.workers = s.server.workers.set w wk' ∧
      wk'.kind = wk.kind ∧ wk'.phase = afterCall wk.phase := by
  unfold Server.State.succeed at h
  cases hphase : wk.phase <;> rw [hphase] at h
  case notify =>
    split_ifs at h with hserver
    cases h
    exact ⟨nofun, nofun, _, rfl, rfl, rfl⟩
  all_goals
    cases h <;> exact ⟨nofun, nofun, _, rfl, rfl, rfl⟩

/-! ## What a step does -/

/-- A number above all allocated dataspaces is not allocated. -/
theorem Books.fresh_free (h : Books s) : s.held (.dataspace s.fresh) = none := by
  by_contra hne
  obtain ⟨⟨o, x⟩, hheld⟩ := Option.ne_none_iff_exists'.mp hne
  exact absurd (h.fresh s.fresh o x hheld) (Nat.lt_irrefl _)

/-- A call that succeeds takes the worker's account to that of the next phase. -/
theorem Books.succeed (h : Books s) (hw : s.server.workers[w]? = some wk)
    (hret : wk.phase ≠ .returned) (heffect : s.succeed w wk place = some s') : Local w s s' ∧
      ∃ l, Account s'.held w l ∧ Holds wk.kind (s'.impls w) (afterCall wk.phase) l := by
  obtain ⟨l, hacc, hholds⟩ := h.worker w wk hw hret
  have hdbr := h.dbr w
  unfold State.succeed at heffect
  generalize wk.phase = p at hholds heffect ⊢
  -- What it has so far says in which phase it is, and the call adds the next thing.
  cases hholds with
  | runThread hnames =>
    cases heffect
    exact ⟨.refl w s, [], hacc, .capAlloc hnames⟩
  | capAlloc hnames =>
    obtain ⟨hlocal, hacc', hnames'⟩ := capAlloc_cases hacc hdbr hnames heffect
    exact ⟨hlocal, _, hacc', .memAlloc hnames'⟩
  | memAlloc hnames =>
    obtain ⟨hlocal, hacc', hnames'⟩ := memAlloc_cases hacc h.fresh_free hnames heffect
    exact ⟨hlocal, _, hacc', .attach hnames'⟩
  | attach hnames =>
    obtain ⟨hlocal, hacc', hnames'⟩ := attach_cases hacc hdbr hnames heffect
    exact ⟨hlocal, _, hacc', .registerObj hnames'⟩
  | registerObj hnames =>
    obtain ⟨hlocal, hacc', hnames'⟩ := registerObj_cases hacc hdbr hnames heffect
    exact ⟨hlocal, _, hacc', .registered (.inl rfl) hnames'⟩
  | registered hp hnames =>
    rcases hp with rfl | rfl | rfl <;> cases heffect
    · exact ⟨.refl w s, _, hacc, .registered (.inr (.inl rfl)) hnames⟩
    · exact ⟨.refl w s, _, hacc, .registered (.inr (.inr rfl)) hnames⟩
    · exact ⟨.refl w s, _, hacc, .registered (.inr (.inr rfl)) hnames⟩

/-- What a worker in its loop holds. -/
theorem Books.loop (h : Books s) (hw : s.server.workers[w]? = some wk) (hloop : wk.phase = .loop) :
    ∃ c d addr g, Account s.held w [(.slot g, .gate), (.region addr, .dataspace d),
        (.dataspace d, .empty), (.slot c, .dataspace d)] ∧
      (s.impls w).names wk.kind = (some c, some addr, some g) := by
  have hret : wk.phase ≠ .returned := fun heq => by
    rw [hloop] at heq
    cases heq
  obtain ⟨l, hacc, hholds⟩ := h.worker w wk hw hret
  rw [hloop] at hholds
  cases hholds with
  | registered _ hnames => exact ⟨_, _, _, _, hacc, hnames⟩

/-- Each act has its effect. -/
theorem effect_of_step (h : Books s) (hstep : Step s a s') : Effect s a s' := by
  unfold Step next at hstep
  -- A client asks for a dataspace, or the server and its workers take a step.
  cases a with
  | get w role =>
    obtain ⟨wk, hw, hget⟩ := Option.bind_eq_some_iff.mp hstep
    split_ifs at hget with hguard
    cases hget
    exact .get hw hguard.1 hguard.2.1
  | server a place =>
    obtain ⟨server, hserver, hrest⟩ := Option.bind_eq_some_iff.mp hstep
    obtain ⟨s₁, heffect, rfl⟩ := Option.map_eq_some_iff.mp hrest
    unfold Server.next at hserver
    unfold State.effect at heffect
    -- The messages do not touch the dataspaces, and the calls of a worker do.
    cases a with
    | createWq qsize =>
      cases heffect
      obtain ⟨-, rfl⟩ := create_cases hserver
      exact .create nofun rfl rfl
    | createCq qsize =>
      cases heffect
      obtain ⟨-, rfl⟩ := create_cases hserver
      exact .create nofun rfl rfl
    | receiveError =>
      cases heffect
      obtain ⟨v, -, -, rfl⟩ := receiveError_cases hserver
      exact .quiet nofun rfl
    | reply =>
      cases heffect
      obtain ⟨v, -, rfl⟩ := reply_cases hserver
      exact .quiet nofun rfl
    | call w ok =>
      obtain ⟨wk, hw, hcall⟩ := Option.bind_eq_some_iff.mp hserver
      dsimp only at heffect
      rw [hw, Option.bind_some] at heffect
      -- A call succeeds and is entered in the account, or it fails and the thread returns.
      cases ok with
      | true =>
        obtain ⟨hloop, hret, wk', hworkers, hkind, hphase⟩ := server_succeed_cases hcall
        obtain ⟨hlocal, l, hacc, hholds⟩ := h.succeed hw hret heffect
        rw [← hkind, ← hphase] at hholds
        have hret' : wk'.phase ≠ .returned := hphase ▸ afterCall_ne_returned hret
        exact .succeed hw hloop hret hret'
          ⟨hlocal.withServer server, hworkers, fun _ => ⟨l, hacc, hholds⟩⟩
      | false =>
        cases heffect
        obtain ⟨-, hloop, hret, rfl⟩ := fail_cases hcall
        have hlocal : Local w s (s.return w) := local_setImpl rfl
        exact .fail hw hloop hret
          ⟨hlocal.withServer _, rfl, fun hne => absurd rfl hne⟩ rfl
    | terminate w =>
      obtain ⟨wk, hw, hloop, -, rfl⟩ := terminate_cases hserver
      dsimp only at heffect
      rw [hw] at heffect
      cases heffect
      obtain ⟨c, d, addr, g, hacc, hnames⟩ := h.loop hw hloop
      obtain ⟨hlocal, hnone⟩ := shutDown_spec hacc (h.dbr w) hnames
      exact .terminate hw hloop
        ⟨hlocal.withServer _, rfl, fun hne => absurd rfl hne⟩ hnone

/-! ## The accounts are kept -/

/-- The other workers are as they were. -/
theorem Turn.worker_of_ne (t : Turn w wk s s') (hv : v ≠ w) :
    s'.server.workers[v]? = s.server.workers[v]? := by
  rw [t.workers, List.getElem?_set_ne hv.symm]

/-- The worker itself has gone on. -/
theorem Turn.worker_self (t : Turn w wk s s') (hw : s.server.workers[w]? = some wk') :
    s'.server.workers[w]? = some wk := by
  have hlt : w < s.server.workers.length := (List.getElem?_eq_some_iff.mp hw).1
  rw [t.workers, List.getElem?_set_self hlt]

/-- A step of a worker keeps the accounts. -/
theorem Books.turn (h : Books s) (hw : s.server.workers[w]? = some wk) (t : Turn w wk' s s') :
    Books s' := by
  have hlt : w < s.server.workers.length := (List.getElem?_eq_some_iff.mp hw).1
  refine ⟨fun d o x hx => ?_, fun v hv => ?_, fun v => ?_, fun v wk₁ hwk hret => ?_⟩
  · -- The worker may have got a new dataspace, and the others have what they had.
    by_cases ho : o = w
    · subst ho
      rcases t.fresh d x hx with ⟨y, hy⟩ | hnew
      · exact (h.fresh d o y hy).trans_le t.grows
      · exact hnew.2
    · have hold := (t.frame o ho (.dataspace d) x).mp hx
      exact (h.fresh d o x hold).trans_le t.grows
  · rw [t.workers, List.length_set] at hv
    have hne : v ≠ w := Nat.ne_of_gt (hlt.trans_le hv)
    obtain ⟨hacc, himpl⟩ := h.unborn v hv
    exact ⟨hacc.frame hne t.frame, (t.impls v hne).trans himpl⟩
  · by_cases hv : v = w
    · subst hv
      exact t.dbr (h.dbr v)
    · rw [t.impls v hv]
      exact h.dbr v
  · by_cases hv : v = w
    · subst hv
      obtain rfl := Option.some.inj ((t.worker_self hw).symm.trans hwk)
      exact t.account hret
    · rw [t.worker_of_ne hv] at hwk
      obtain ⟨l, hacc, hholds⟩ := h.worker v wk₁ hwk hret
      rw [t.impls v hv]
      exact ⟨l, hacc.frame hv t.frame, hholds⟩

/-- Every step keeps the accounts. -/
theorem Books.step (h : Books s) (hstep : Step s a s') : Books s' := by
  cases effect_of_step h hstep with
  | @create a place wk server _ hworkers hphase =>
    refine ⟨h.fresh, fun v hv => h.unborn v ?_, h.dbr, fun v wk₁ hwk hret => ?_⟩
    · have hlen : server.workers.length ≤ v := hv
      rw [hworkers, List.length_append, List.length_singleton] at hlen
      exact Nat.le_of_succ_le hlen
    · have hwk' : server.workers[v]? = some wk₁ := hwk
      rw [hworkers] at hwk'
      -- A worker is one of the old ones, or it is the new one, which has nothing yet.
      rcases Nat.lt_or_ge v s.server.workers.length with hlt | hge
      · rw [List.getElem?_append_left hlt] at hwk'
        exact h.worker v wk₁ hwk' hret
      · rw [List.getElem?_append_right hge, List.getElem?_singleton] at hwk'
        split_ifs at hwk' with hzero
        obtain rfl := Option.some.inj hwk'
        obtain ⟨hacc, himpl⟩ := h.unborn v hge
        refine ⟨[], hacc, ?_⟩
        rw [hphase]
        apply Holds.runThread
        show (s.impls v).names wk.kind = (none, none, none)
        rw [himpl]
        cases wk.kind <;> rfl
  | quiet _ hworkers =>
    refine ⟨h.fresh, fun v hv => h.unborn v (hworkers ▸ hv), h.dbr, fun v wk₁ hwk hret => ?_⟩
    exact h.worker v wk₁ ((congrArg (fun ws => ws[v]?) hworkers).symm.trans hwk) hret
  | succeed hw _ _ _ t => exact h.turn hw t
  | fail hw _ _ t _ => exact h.turn hw t
  | terminate hw _ t _ => exact h.turn hw t
  | get _ _ _ => exact ⟨h.fresh, h.unborn, h.dbr, h.worker⟩

end L4Rdma.Resources
