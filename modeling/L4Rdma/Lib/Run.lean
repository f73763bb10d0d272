import Mathlib

/-!
# Runs of a transition system

A transition system is a relation `R : σ → ε → σ → Prop`: in a state, an event, the state after it.
A `Run` records the events it takes, each with the state it was taken in. `Run.inv` is the
invariant rule. `Run.all_iff` is the rule for a property that holds throughout a run exactly when
every step of the run meets a guard: the invariant is kept by the guarded steps, and the first step
that does not meet the guard leads to a state without the property.
-/

namespace L4Rdma.Lib

variable {σ ε : Type}

/-- A run of `R` from `init`: the steps taken, each event with the state before it, and the state
reached. -/
inductive Run (R : σ → ε → σ → Prop) (init : σ) : List (σ × ε) → σ → Prop
  /-- The run of no steps. -/
  | nil : Run R init [] init
  /-- A run with one more step. -/
  | snoc {steps : List (σ × ε)} {s s' : σ} {e : ε} :
    Run R init steps s → R s e s' → Run R init (steps ++ [(s, e)]) s'

/-- `P` holds in every state of a run: before each of its steps, and at its end. -/
def Throughout (P : σ → Prop) (steps : List (σ × ε)) (s : σ) : Prop :=
  (∀ p ∈ steps, P p.1) ∧ P s

/-- A property that does not hold at the end does not hold throughout. -/
theorem not_throughout {P : σ → Prop} {steps : List (σ × ε)} {s : σ} (h : ¬ P s) :
    ¬ Throughout P steps s :=
  fun ht => h ht.2

/-- Every step of a run meets the guard `G`. -/
def AllSteps (G : σ → ε → Prop) (steps : List (σ × ε)) : Prop :=
  ∀ p ∈ steps, G p.1 p.2

variable {R : σ → ε → σ → Prop} {init s : σ} {steps : List (σ × ε)}

/-- One more step that meets the guard. -/
theorem allSteps_snoc {G : σ → ε → Prop} {e : ε} :
    AllSteps G (steps ++ [(s, e)]) ↔ AllSteps G steps ∧ G s e := by
  simp only [AllSteps, List.mem_append, List.mem_singleton]
  constructor
  · exact fun h => ⟨fun p hp => h p (.inl hp), h (s, e) (.inr rfl)⟩
  · rintro ⟨h, hs⟩ p (hp | rfl)
    · exact h p hp
    · exact hs

/-- One more state. -/
theorem throughout_snoc {P : σ → Prop} {s' : σ} {e : ε} :
    Throughout P (steps ++ [(s, e)]) s' ↔ Throughout P steps s ∧ P s' := by
  simp only [Throughout, List.mem_append, List.mem_singleton]
  constructor
  · rintro ⟨h, hs'⟩
    exact ⟨⟨fun p hp => h p (.inl hp), h (s, e) (.inr rfl)⟩, hs'⟩
  · rintro ⟨⟨h, hs⟩, hs'⟩
    refine ⟨?_, hs'⟩
    rintro p (hp | rfl)
    · exact h p hp
    · exact hs

/-- A run with one more step at its start. -/
theorem Run.cons {s' s'' : σ} {e : ε} (he : R s e s') (h : Run R s' steps s'') :
    Run R s ((s, e) :: steps) s'' := by
  induction h with
  | nil => exact Run.nil.snoc he
  | snoc _ hR ih => exact ih.snoc hR

/-- The steps that a sequence of events takes when each has one outcome. -/
def trace (next : σ → ε → σ) : σ → List ε → List (σ × ε)
  | _, [] => []
  | s, e :: es => (s, e) :: trace next (next s e) es

/-- The events of a trace are those it was made from. -/
theorem trace_events (next : σ → ε → σ) (es : List ε) :
    ∀ s, (trace next s es).map Prod.snd = es := by
  induction es with
  | nil => exact fun _ => rfl
  | cons e es ih => exact fun s => by rw [trace, List.map_cons, ih]

/-- They are a run, if each of them is a step. -/
theorem run_trace {next : σ → ε → σ} {es : List ε}
    (h : ∀ p ∈ trace next s es, R p.1 p.2 (next p.1 p.2)) :
    Run R s (trace next s es) (es.foldl next s) := by
  induction es generalizing s with
  | nil => exact .nil
  | cons e es ih =>
    refine Run.cons (h (s, e) List.mem_cons_self) (ih fun p hp => h p ?_)
    exact List.mem_cons_of_mem _ hp

/-- The steps that a sequence of events takes when each is possible or not. -/
def traceM (next : σ → ε → Option σ) : σ → List ε → List (σ × ε)
  | _, [] => []
  | s, e :: es => (s, e) :: ((next s e).map fun s' => traceM next s' es).getD []

/-- They are a run if each of the events is possible where it is taken. -/
theorem run_traceM {next : σ → ε → Option σ} {es : List ε} {s' : σ}
    (h : es.foldlM next s = some s') :
    Run (fun s e s' => next s e = some s') s (traceM next s es) s' ∧
      (traceM next s es).map Prod.snd = es := by
  induction es generalizing s with
  | nil =>
    cases h
    exact ⟨.nil, rfl⟩
  | cons e es ih =>
    rw [List.foldlM_cons] at h
    obtain ⟨s₁, hnext, hrest⟩ := Option.bind_eq_some_iff.mp h
    obtain ⟨hrun, hes⟩ := ih hrest
    rw [traceM, hnext, Option.map_some, Option.getD_some]
    exact ⟨hrun.cons hnext, by rw [List.map_cons, hes]⟩

/-- An invariant of the guarded steps holds throughout a run whose steps meet the guard. -/
theorem Run.inv {I : σ → Prop} {G : σ → ε → Prop} (h0 : I init)
    (hstep : ∀ s e s', I s → R s e s' → G s e → I s') (h : Run R init steps s)
    (hG : AllSteps G steps) : Throughout I steps s := by
  induction h with
  | nil => exact ⟨by simp, h0⟩
  | snoc _ hR ih =>
    rw [allSteps_snoc] at hG
    have hI := ih hG.1
    exact throughout_snoc.mpr ⟨hI, hstep _ _ _ hI.2 hR hG.2⟩

/-- A property that follows from another one follows from it throughout a run. -/
theorem Throughout.mono {P Q : σ → Prop} (hPQ : ∀ s, P s → Q s) (h : Throughout P steps s) :
    Throughout Q steps s :=
  ⟨fun p hp => hPQ _ (h.1 p hp), hPQ _ h.2⟩

/-- A property holds throughout a run exactly when all its steps meet the guard, if the invariant
`I` implies the property and is kept by the guarded steps, and a step without the guard, taken
under the invariant, destroys the property. -/
theorem Run.all_iff {I P : σ → Prop} {G : σ → ε → Prop} (h0 : I init) (hP : ∀ s, I s → P s)
    (hgood : ∀ s e s', I s → R s e s' → G s e → I s')
    (hbad : ∀ s e s', I s → R s e s' → ¬ G s e → ¬ P s') (h : Run R init steps s) :
    Throughout P steps s ↔ AllSteps G steps := by
  refine ⟨fun hT => ?_, fun hG => (h.inv h0 hgood hG).mono hP⟩
  induction h with
  | nil => exact fun p hp => by simp at hp
  | @snoc steps s s' e hrun hR ih =>
    rw [throughout_snoc] at hT
    have hG := ih hT.1
    rw [allSteps_snoc]
    refine ⟨hG, ?_⟩
    by_contra hne
    exact hbad s e s' (hrun.inv h0 hgood hG).2 hR hne hT.2

end L4Rdma.Lib
