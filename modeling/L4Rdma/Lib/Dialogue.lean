import L4Rdma.Lib.Exec

/-!
# Programs that speak under a protocol

A program exchanges messages with a partner. A `Dialogue` says what has been exchanged between two
states of the program. A protocol says which exchange may come next in each of its phases, and which
phase it leads to. A program obeys a protocol from a state and a phase (`Obeys`) if, however it ends,
everything that it has said could come where it did. There is one rule for each way to build a
program.
-/

namespace L4Rdma.Lib

variable {ε σ τ α β E P : Type}

/-- What a program and its partner have exchanged between two states. -/
structure Dialogue (σ E : Type) where
  said : σ → List E → σ → Prop
  nil : ∀ s, said s [] s
  append : ∀ {s s' s'' es es'}, said s es s' → said s' es' s'' → said s (es ++ es') s''

/-- The phase after a number of exchanges, if each of them may come where it does. -/
def phaseAfter (next : P → E → Option P) (p : P) (es : List E) : Option P := es.foldlM next p

variable {next : P → E → Option P} {p p' p'' : P} {e : E} {es es' : List E}

/-- Without exchanges the phase stays. -/
@[simp] theorem phaseAfter_nil : phaseAfter next p [] = some p := rfl

/-- One exchange leads to the next phase. -/
@[simp] theorem phaseAfter_singleton : phaseAfter next p [e] = next p e := by
  unfold phaseAfter
  rw [List.foldlM_cons]
  cases next p e <;> rfl

/-- The phase after some exchanges and others after them. -/
theorem phaseAfter_append :
    phaseAfter next p (es ++ es') = (phaseAfter next p es).bind fun p' => phaseAfter next p' es' :=
  List.foldlM_append

/-- The exchanges between two states lead from one phase to another. -/
def Dialogue.Leads (𝓓 : Dialogue σ E) (next : P → E → Option P) (s : σ) (p : P) (s' : σ) (p' : P) :
    Prop := ∃ es, 𝓓.said s es s' ∧ phaseAfter next p es = some p'

variable {𝓓 : Dialogue σ E} {s s' s'' : σ}

/-- Nothing has been said between a state and itself. -/
theorem Dialogue.leads_refl (s : σ) (p : P) : 𝓓.Leads next s p s p := ⟨[], 𝓓.nil s, rfl⟩

/-- States with nothing said between them. -/
theorem Dialogue.leads_of_silent (h : 𝓓.said s [] s') : 𝓓.Leads next s p s' p := ⟨[], h, rfl⟩

/-- One exchange. -/
theorem Dialogue.leads_of_said (h : 𝓓.said s [e] s') (hnext : next p e = some p') :
    𝓓.Leads next s p s' p' := ⟨[e], h, by rw [phaseAfter_singleton, hnext]⟩

/-- What is said first and what is said then. -/
theorem Dialogue.Leads.trans (h : 𝓓.Leads next s p s' p') (h' : 𝓓.Leads next s' p' s'' p'') :
    𝓓.Leads next s p s'' p'' := by
  obtain ⟨es, hsaid, hrun⟩ := h
  obtain ⟨es', hsaid', hrun'⟩ := h'
  refine ⟨es ++ es', 𝓓.append hsaid hsaid', ?_⟩
  calc phaseAfter next p (es ++ es')
      = (phaseAfter next p es).bind fun p' => phaseAfter next p' es' := phaseAfter_append
    _ = phaseAfter next p' es' := by rw [hrun, Option.bind_some]
    _ = some p'' := hrun'

/-! ## Obeying a protocol -/

/-- However the program ends, what it has said leads from phase `p` to another one, with the
postcondition `R` if it returns and `T` if it stops. -/
def Obeys (𝓓 : Dialogue σ E) (next : P → E → Option P) (x : EStateM ε σ α) (s : σ) (p : P)
    (R : α → σ → P → Prop) (T : ε → σ → P → Prop) : Prop :=
  Ends x s (fun a s' => ∃ p', 𝓓.Leads next s p s' p' ∧ R a s' p')
    fun e s' => ∃ p', 𝓓.Leads next s p s' p' ∧ T e s' p'

variable {R R' : α → σ → P → Prop} {T T' : ε → σ → P → Prop}

/-- A program that only returns says nothing. -/
theorem obeys_pure {a : α} (h : R a s p) : Obeys 𝓓 next (pure a : EStateM ε σ α) s p R T :=
  ends_pure ⟨p, 𝓓.leads_refl s p, h⟩

/-- Nor does one that only stops. -/
theorem obeys_throw {err : ε} (h : T err s p) :
    Obeys 𝓓 next (throw err : EStateM ε σ α) s p R T :=
  ends_of_error (throw_apply err s) ⟨p, 𝓓.leads_refl s p, h⟩

/-- The rule of consequence. -/
theorem Obeys.mono {x : EStateM ε σ α} (h : Obeys 𝓓 next x s p R T)
    (hR : ∀ a s' p', R a s' p' → R' a s' p') (hT : ∀ e s' p', T e s' p' → T' e s' p') :
    Obeys 𝓓 next x s p R' T' :=
  Ends.mono h (fun _ _ ⟨p', hleads, ha⟩ => ⟨p', hleads, hR _ _ _ ha⟩)
    fun _ _ ⟨p', hleads, he⟩ => ⟨p', hleads, hT _ _ _ he⟩

/-- What is known about the end of a program besides what it says. -/
theorem Obeys.and_ends {x : EStateM ε σ α} {Q : α → σ → Prop} {F : ε → σ → Prop}
    (h : Obeys 𝓓 next x s p R T) (h' : Ends x s Q F) :
    Obeys 𝓓 next x s p (fun a s' p' => R a s' p' ∧ Q a s') fun e s' p' => T e s' p' ∧ F e s' :=
  (Ends.and h h').mono (fun _ _ ⟨⟨p', hleads, ha⟩, hQ⟩ => ⟨p', hleads, ha, hQ⟩)
    fun _ _ ⟨⟨p', hleads, he⟩, hF⟩ => ⟨p', hleads, he, hF⟩

/-- A phase that no exchange leads out of. -/
def Absorbing (next : P → E → Option P) (p : P) : Prop := ∀ e p', next p e = some p' → p' = p

/-- Any exchanges that can come in such a phase stay in it. -/
theorem Absorbing.phaseAfter_eq (hp : Absorbing next p) (h : phaseAfter next p es = some p') :
    p' = p := by
  induction es with
  | nil =>
    rw [phaseAfter_nil] at h
    exact (Option.some.inj h).symm
  | cons e es ih =>
    -- The first exchange stays in the phase, and the others do as well.
    have hsplit : (next p e).bind (fun p₁ => phaseAfter next p₁ es) = some p' := h
    obtain ⟨p₁, hfirst, hrest⟩ := Option.bind_eq_some_iff.mp hsplit
    rw [hp e p₁ hfirst] at hrest
    exact ih hrest

/-- So does what is said between two states. -/
theorem Absorbing.leads (hp : Absorbing next p) (h : 𝓓.Leads next s p s' p') : p' = p := by
  obtain ⟨es, -, hrun⟩ := h
  exact hp.phaseAfter_eq hrun

/-- In such a phase a program stays. -/
theorem Obeys.absorbed {x : EStateM ε σ α} (hp : Absorbing next p) (h : Obeys 𝓓 next x s p R T) :
    Obeys 𝓓 next x s p (fun a s' p' => p' = p ∧ R a s' p') fun e s' p' => p' = p ∧ T e s' p' :=
  Ends.mono h (fun _ _ ⟨p', hleads, ha⟩ => ⟨p', hleads, hp.leads hleads, ha⟩)
    fun _ _ ⟨p', hleads, he⟩ => ⟨p', hleads, hp.leads hleads, he⟩

/-- What is said after something else. -/
theorem Obeys.after {x : EStateM ε σ α} (h : 𝓓.Leads next s p s' p')
    (hx : Obeys 𝓓 next x s' p' R T) :
    Ends x s' (fun a s'' => ∃ p'', 𝓓.Leads next s p s'' p'' ∧ R a s'' p'')
      fun e s'' => ∃ p'', 𝓓.Leads next s p s'' p'' ∧ T e s'' p'' :=
  Ends.mono hx (fun _ _ ⟨p'', hleads, ha⟩ => ⟨p'', h.trans hleads, ha⟩)
    fun _ _ ⟨p'', hleads, he⟩ => ⟨p'', h.trans hleads, he⟩

/-- The rule of sequences. -/
theorem Obeys.bind {x : EStateM ε σ α} {f : α → EStateM ε σ β} {R' : β → σ → P → Prop}
    (h : Obeys 𝓓 next x s p R T) (hf : ∀ a s' p', R a s' p' → Obeys 𝓓 next (f a) s' p' R' T) :
    Obeys 𝓓 next (x >>= f) s p R' T := by
  rcases h.cases with ⟨a, s', hx, p', hleads, ha⟩ | ⟨err, s', hx, hstop⟩
  · exact Ends.bind_of_ok hx (Obeys.after hleads (hf a s' p' ha))
  · exact ends_of_error (bind_of_error hx) hstop

/-- The rule of sequences, if more is known about the end of the first part. -/
theorem Obeys.bind_and {x : EStateM ε σ α} {f : α → EStateM ε σ β} {R' : β → σ → P → Prop}
    {Q : α → σ → Prop} {F : ε → σ → Prop} (h : Obeys 𝓓 next x s p R T) (h' : Ends x s Q F)
    (hf : ∀ a s' p', R a s' p' → Q a s' → Obeys 𝓓 next (f a) s' p' R' T) :
    Obeys 𝓓 next (x >>= f) s p R' T :=
  ((h.and_ends h').mono (fun _ _ _ hboth => hboth) fun _ _ _ hboth => hboth.1).bind
    fun a s' p' hboth => hf a s' p' hboth.1 hboth.2

/-- A sequence whose first part says nothing. -/
theorem Obeys.bind_of_ok {x : EStateM ε σ α} {f : α → EStateM ε σ β} {R' : β → σ → P → Prop} {a : α}
    (hx : x s = .ok a s) (hf : Obeys 𝓓 next (f a) s p R' T) : Obeys 𝓓 next (x >>= f) s p R' T :=
  Ends.bind_of_ok hx hf

/-- A program that says nothing. -/
theorem obeys_of_silent {x : EStateM ε σ α}
    (h : Ends x s (fun a s' => 𝓓.said s [] s' ∧ R a s' p) fun e s' => 𝓓.said s [] s' ∧ T e s' p) :
    Obeys 𝓓 next x s p R T :=
  Ends.mono h (fun _ _ ⟨hsaid, ha⟩ => ⟨p, Dialogue.leads_of_silent hsaid, ha⟩)
    fun _ _ ⟨hsaid, he⟩ => ⟨p, Dialogue.leads_of_silent hsaid, he⟩

/-- The rule of counted loops. -/
theorem obeys_forRange {n : ℕ} {a : α} {body : ℕ → α → EStateM ε σ α} (I : ℕ → α → σ → P → Prop)
    (h0 : I 0 a s p)
    (hstep : ∀ i a s p, i < n → I i a s p → Obeys 𝓓 next (body i a) s p (I (i + 1)) T) :
    Obeys 𝓓 next (forRange n a body) s p (I n) T := by
  suffices ∀ k i a s p, i + k = n → I i a s p → Obeys 𝓓 next (forFrom body i k a) s p (I n) T from
    this n 0 a s p (by omega) h0
  intro k
  induction k with
  | zero =>
    intro i a s p hi hI
    obtain rfl : i = n := by omega
    exact obeys_pure hI
  | succ k ih =>
    intro i a s p hi hI
    exact (hstep i a s p (by omega) hI).bind fun a' s' p' hI' =>
      ih (i + 1) a' s' p' (by omega) hI'

/-! ## Parts of a larger state -/

/-- A dialogue of a part of the state. -/
def Dialogue.through (𝓓 : Dialogue σ E) (l : Lens τ σ) : Dialogue τ E where
  said t es t' := 𝓓.said (l.view t) es (l.view t')
  nil t := 𝓓.nil (l.view t)
  append h h' := 𝓓.append h h'

/-- A program on a part of the state obeys the protocol as it does on the part alone. -/
theorem Obeys.zoom {l : Lens τ σ} (hl : l.Lawful) {x : EStateM ε σ α} {t : τ}
    (h : Obeys 𝓓 next x (l.view t) p R T) :
    Obeys (𝓓.through l) next (l.zoom x) t p
      (fun a t' p' => t' = l.set (l.view t') t ∧ R a (l.view t') p')
      fun e t' p' => t' = l.set (l.view t') t ∧ T e (l.view t') p' := by
  -- What is said on the part is said by the whole.
  have hleads : ∀ {s' p'}, 𝓓.Leads next (l.view t) p s' p' →
      (𝓓.through l).Leads next t p (l.set s' t) p' := by
    rintro s' p' ⟨es, hsaid, hrun⟩
    refine ⟨es, ?_, hrun⟩
    show 𝓓.said (l.view t) es (l.view (l.set s' t))
    rwa [hl.view_set]
  refine Ends.mono (Ends.zoom h) ?_ ?_
  · rintro a t' ⟨s', rfl, p', hled, ha⟩
    refine ⟨p', hleads hled, by rw [hl.view_set], ?_⟩
    rwa [hl.view_set]
  · rintro e t' ⟨s', rfl, p', hled, he⟩
    refine ⟨p', hleads hled, by rw [hl.view_set], ?_⟩
    rwa [hl.view_set]

/-- A program on a part of the state that the dialogue has no share in says nothing. -/
theorem obeys_of_leaves {ρ : Type} {f : σ → ρ} (hsaid : ∀ {s s'}, f s' = f s → 𝓓.said s [] s')
    {x : EStateM ε σ α} (hx : Leaves f x)
    (hR : ∀ a s', f s' = f s → R a s' p) (hT : ∀ e s', f s' = f s → T e s' p) :
    Obeys 𝓓 next x s p R T :=
  obeys_of_silent <| (hx s).mono (fun a s' heq => ⟨hsaid heq, hR a s' heq⟩)
    fun e s' heq => ⟨hsaid heq, hT e s' heq⟩

end L4Rdma.Lib
