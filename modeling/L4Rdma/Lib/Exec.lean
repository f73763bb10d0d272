import Mathlib

/-!
# Programs with a state that can stop early

`EStateM ε σ α` is the type of an imperative program over the state `σ`: it returns a value and
the state it leaves, or it stops with an error `ε` and the state at that point. This file has the
rules by which such programs are proved: what a sequence does once its first part is known
(`bind_of_ok`, `bind_of_error`), a counted loop and its invariant rule (`forRange`), programs over
a part of a larger state (`Lens.zoom`), the errors that a program never stops with (`Avoids`), and
the part of the state that a program leaves as it was when it returns (`Keeps`), or however it ends
(`Leaves`). `Ends` states both ways in which a program can end, with a rule for each way to build a
program.
-/

namespace L4Rdma.Lib

variable {ε σ τ α β : Type}

/-! ## Sequences -/

/-- A sequence whose first part returns goes on with its second part. -/
theorem bind_of_ok {x : EStateM ε σ α} {f : α → EStateM ε σ β} {s s' : σ} {a : α}
    (h : x s = .ok a s') : (x >>= f) s = f a s' := by
  show EStateM.bind x f s = _
  simp [EStateM.bind, h]

/-- A sequence whose first part stops stops there. -/
theorem bind_of_error {x : EStateM ε σ α} {f : α → EStateM ε σ β} {s s' : σ} {e : ε}
    (h : x s = .error e s') : (x >>= f) s = .error e s' := by
  show EStateM.bind x f s = _
  simp [EStateM.bind, h]

/-- A sequence depends only on what its first part does in the state. -/
theorem bind_of_eq {x y : EStateM ε σ α} {f : α → EStateM ε σ β} {s : σ} (h : x s = y s) :
    (x >>= f) s = (y >>= f) s := by
  show EStateM.bind x f s = EStateM.bind y f s
  simp [EStateM.bind, h]

/-- A sequence stops exactly when its first part does, or its second part after the first. -/
theorem bind_eq_error_iff {x : EStateM ε σ α} {f : α → EStateM ε σ β} {s s'' : σ} {e : ε} :
    (x >>= f) s = .error e s'' ↔
      x s = .error e s'' ∨ ∃ a s', x s = .ok a s' ∧ f a s' = .error e s'' := by
  cases h : x s with
  | ok a s' => rw [bind_of_ok h]; simp
  | error e' s' => rw [bind_of_error h]; simp

/-- A sequence returns exactly when its first part does, and its second part after it. -/
theorem bind_eq_ok_iff {x : EStateM ε σ α} {f : α → EStateM ε σ β} {s s'' : σ} {b : β} :
    (x >>= f) s = .ok b s'' ↔ ∃ a s', x s = .ok a s' ∧ f a s' = .ok b s'' := by
  cases h : x s with
  | ok a s' => rw [bind_of_ok h]; simp
  | error e' s' => rw [bind_of_error h]; simp

/-- The program returns, and then `P` is true. -/
def Returns (x : EStateM ε σ α) (s : σ) (P : σ → Prop) : Prop := ∃ a s', x s = .ok a s' ∧ P s'

/-- Whether it does can be evaluated. -/
instance decidableReturns (x : EStateM ε σ α) (s : σ) (P : σ → Prop) [DecidablePred P] :
    Decidable (Returns x s P) :=
  match h : x s with
  | .ok a s' => decidable_of_iff (P s')
      ⟨fun hp => ⟨a, s', h, hp⟩, fun ⟨_, _, hx, hp⟩ => by cases h.symm.trans hx; exact hp⟩
  | .error _ _ => isFalse fun ⟨_, _, hx, _⟩ => by cases h.symm.trans hx

/-- What `pure` does. -/
@[simp] theorem pure_apply (a : α) (s : σ) : (pure a : EStateM ε σ α) s = .ok a s := rfl

/-- What `get` does. -/
@[simp] theorem get_apply (s : σ) : (get : EStateM ε σ σ) s = .ok s s := rfl

/-- What `modify` does. -/
@[simp] theorem modify_apply (f : σ → σ) (s : σ) :
    (modify f : EStateM ε σ PUnit) s = .ok ⟨⟩ (f s) := rfl

/-- What `throw` does. -/
@[simp] theorem throw_apply (e : ε) (s : σ) : (throw e : EStateM ε σ α) s = .error e s := rfl

/-- A sequence that begins with `get`. -/
@[simp] theorem get_bind (f : σ → EStateM ε σ β) (s : σ) :
    ((get : EStateM ε σ σ) >>= f) s = f s s := rfl

/-- A sequence that begins with `modify`. -/
@[simp] theorem modify_bind (g : σ → σ) (f : PUnit → EStateM ε σ β) (s : σ) :
    ((modify g : EStateM ε σ PUnit) >>= f) s = f ⟨⟩ (g s) := rfl

/-- A sequence that begins with `throw` stops. -/
@[simp] theorem throw_bind (e : ε) (f : α → EStateM ε σ β) (s : σ) :
    ((throw e : EStateM ε σ α) >>= f) s = .error e s := rfl

/-- The statement `if (c) x;`. -/
def doIf (c : Prop) [Decidable c] (x : EStateM ε σ Unit) : EStateM ε σ Unit :=
  if c then x else pure ()

/-- The program is run if the condition is true. -/
theorem doIf_of_pos {c : Prop} [Decidable c] (h : c) (x : EStateM ε σ Unit) : doIf c x = x :=
  if_pos h

/-- It is left out if the condition is false. -/
theorem doIf_of_neg {c : Prop} [Decidable c] (h : ¬ c) (x : EStateM ε σ Unit) (s : σ) :
    doIf c x s = .ok () s := by
  rw [doIf, if_neg h]
  rfl

/-! ## Counted loops -/

/-- The loop `for (i = lo; k more times; i++) a = body(i, a)`. -/
def forFrom (body : ℕ → α → EStateM ε σ α) : ℕ → ℕ → α → EStateM ε σ α
  | _, 0, a => pure a
  | i, k + 1, a => do
    let a ← body i a
    forFrom body (i + 1) k a

/-- The loop `for (i = 0; i < n; i++) a = body(i, a)`. -/
def forRange (n : ℕ) (a : α) (body : ℕ → α → EStateM ε σ α) : EStateM ε σ α :=
  forFrom body 0 n a

/-- A loop whose rounds `i` to `i + k - 1` each return and keep the invariant `I` returns, with the
invariant at its last index. -/
theorem forFrom_ok {body : ℕ → α → EStateM ε σ α} (I : ℕ → α → σ → Prop) (k : ℕ) :
    ∀ {i : ℕ} {a : α} {s : σ}, I i a s →
      (∀ j a s, i ≤ j → j < i + k → I j a s →
        ∃ a' s', body j a s = .ok a' s' ∧ I (j + 1) a' s') →
      ∃ a' s', forFrom body i k a s = .ok a' s' ∧ I (i + k) a' s' := by
  induction k with
  | zero => exact fun h _ => ⟨_, _, rfl, h⟩
  | succ k ih =>
    intro i a s h hstep
    obtain ⟨a', s', hb, h'⟩ := hstep i a s (Nat.le_refl i) (by omega) h
    obtain ⟨a'', s'', hf, h''⟩ := ih h' fun j a s hj hjk => hstep j a s (by omega) (by omega)
    refine ⟨a'', s'', ?_, ?_⟩
    · rw [forFrom, bind_of_ok hb, hf]
    · rwa [show i + (k + 1) = i + 1 + k by omega]

/-- The invariant rule of a counted loop. -/
theorem forRange_ok {n : ℕ} {a : α} {s : σ} {body : ℕ → α → EStateM ε σ α}
    (I : ℕ → α → σ → Prop) (h0 : I 0 a s)
    (hstep : ∀ i a s, i < n → I i a s → ∃ a' s', body i a s = .ok a' s' ∧ I (i + 1) a' s') :
    ∃ a' s', forRange n a body s = .ok a' s' ∧ I n a' s' := by
  obtain ⟨a', s', h, hI⟩ := forFrom_ok I n h0 fun j a s _ hj => hstep j a s (by omega)
  exact ⟨a', s', h, by rwa [Nat.zero_add] at hI⟩

/-- A round of a loop that also takes a note of its result. -/
def noted (note : α → β → β) (body : ℕ → α → EStateM ε σ α) (i : ℕ) (c : α × β) :
    EStateM ε σ (α × β) := do
  let a ← body i c.1
  return (a, note a c.2)

/-- Notes do not change what a loop does. -/
theorem forRange_noted {note : α → β → β} {body : ℕ → α → EStateM ε σ α} {n : ℕ} {a a' : α}
    {b b' : β} {s s' : σ} (h : forRange n (a, b) (noted note body) s = .ok (a', b') s') :
    forRange n a body s = .ok a' s' := by
  suffices ∀ k i a b s, forFrom (noted note body) i k (a, b) s = .ok (a', b') s' →
      forFrom body i k a s = .ok a' s' from this n 0 a b s h
  intro k
  induction k with
  | zero =>
    intro i a b s h
    cases h
    rfl
  | succ k ih =>
    intro i a b s h
    obtain ⟨c, s₁, hround, hrest⟩ := bind_eq_ok_iff.mp h
    obtain ⟨a₁, s₂, hbody, hnote⟩ := bind_eq_ok_iff.mp hround
    cases hnote
    exact (bind_of_ok hbody).trans (ih (i + 1) a₁ _ s₁ hrest)

/-- A loop whose rounds before `m` keep an invariant under which round `m` stops stops there. -/
theorem forFrom_error {body : ℕ → α → EStateM ε σ α} (I : ℕ → α → σ → Prop) (e : ε) (k m : ℕ) :
    ∀ {i : ℕ} {a : α} {s : σ}, I i a s → i ≤ m → m < i + k →
      (∀ j a s, j < m → I j a s → ∃ a' s', body j a s = .ok a' s' ∧ I (j + 1) a' s') →
      (∀ a s, I m a s → ∃ s', body m a s = .error e s') →
      ∃ s', forFrom body i k a s = .error e s' := by
  induction k with
  | zero => intro i a s _ h h'; omega
  | succ k ih =>
    intro i a s h him hmk hstep hstop
    rcases Nat.lt_or_ge i m with hlt | hge
    · obtain ⟨a', s', hb, h'⟩ := hstep i a s hlt h
      rw [forFrom, bind_of_ok hb]
      exact ih h' (by omega) (by omega) hstep hstop
    · obtain rfl : i = m := by omega
      obtain ⟨s', hs'⟩ := hstop a s h
      exact ⟨s', by rw [forFrom, bind_of_error hs']⟩

/-- A counted loop stops at the round `m` that stops, when the rounds before it keep an
invariant. -/
theorem forRange_error {n m : ℕ} {a : α} {s : σ} {e : ε} {body : ℕ → α → EStateM ε σ α}
    (I : ℕ → α → σ → Prop) (h0 : I 0 a s) (hm : m < n)
    (hstep : ∀ j a s, j < m → I j a s → ∃ a' s', body j a s = .ok a' s' ∧ I (j + 1) a' s')
    (hstop : ∀ a s, I m a s → ∃ s', body m a s = .error e s') :
    ∃ s', forRange n a body s = .error e s' :=
  forFrom_error I e n m h0 (Nat.zero_le _) (by omega) hstep hstop

/-! ## A part of a larger state -/

/-- A part `σ` of a state `τ`: how to read it and how to replace it. -/
structure Lens (τ σ : Type) where
  /-- Reads the part. -/
  view : τ → σ
  /-- Replaces the part. -/
  set : σ → τ → τ

/-- A program over a part of the state, run on the whole state. -/
def Lens.zoom (l : Lens τ σ) (x : EStateM ε σ α) : EStateM ε τ α := fun t =>
  match x (l.view t) with
  | .ok a s => .ok a (l.set s t)
  | .error e s => .error e (l.set s t)

/-- A zoomed program returns what the program on the part returns. -/
theorem Lens.zoom_of_ok {l : Lens τ σ} {x : EStateM ε σ α} {t : τ} {a : α} {s : σ}
    (h : x (l.view t) = .ok a s) : l.zoom x t = .ok a (l.set s t) := by
  simp [Lens.zoom, h]

/-- A zoomed program stops when the program on the part does. -/
theorem Lens.zoom_of_error {l : Lens τ σ} {x : EStateM ε σ α} {t : τ} {e : ε} {s : σ}
    (h : x (l.view t) = .error e s) : l.zoom x t = .error e (l.set s t) := by
  simp [Lens.zoom, h]

/-- What is put in a part is read from it, and nothing else of the part is left. -/
structure Lens.Lawful (l : Lens τ σ) : Prop where
  view_set : ∀ s t, l.view (l.set s t) = s
  set_set : ∀ s s' t, l.set s (l.set s' t) = l.set s t
  set_view : ∀ t, l.set (l.view t) t = t

/-- A sequence on a part is the sequence of the programs on the part. -/
theorem Lens.Lawful.zoom_bind {l : Lens τ σ} (h : l.Lawful) (x : EStateM ε σ α)
    (f : α → EStateM ε σ β) (t : τ) :
    l.zoom (x >>= f) t = (l.zoom x >>= fun a => l.zoom (f a)) t := by
  cases hx : x (l.view t) with
  | ok a s =>
    rw [bind_of_ok (Lens.zoom_of_ok hx), Lens.zoom, Lens.zoom, bind_of_ok hx, h.view_set]
    simp only [h.set_set]
  | error e s =>
    rw [bind_of_error (Lens.zoom_of_error hx), Lens.zoom, bind_of_error hx]

/-- A program over the part that only returns does so over the whole. -/
theorem Lens.Lawful.zoom_pure {l : Lens τ σ} (h : l.Lawful) (a : α) (t : τ) :
    l.zoom (pure a : EStateM ε σ α) t = .ok a t := by
  rw [Lens.zoom, pure_apply]
  simp only [h.set_view]

/-! ## Errors that a program never stops with -/

/-- Whatever the state, the program never stops with a `bad` error. -/
def Avoids (bad : ε → Prop) (x : EStateM ε σ α) : Prop :=
  ∀ s e s', x s = .error e s' → ¬ bad e

variable {bad : ε → Prop}

/-- `pure` does not stop. -/
theorem avoids_pure (a : α) : Avoids bad (pure a : EStateM ε σ α) := by
  intro s e s' h
  simp at h

/-- `get` does not stop. -/
theorem avoids_get : Avoids bad (get : EStateM ε σ σ) := by
  intro s e s' h
  simp at h

/-- `modify` does not stop. -/
theorem avoids_modify (f : σ → σ) : Avoids bad (modify f : EStateM ε σ PUnit) := by
  intro s e s' h
  simp at h

/-- A program that stops at once avoids every other error. -/
theorem avoids_throw {e : ε} (he : ¬ bad e) : Avoids bad (throw e : EStateM ε σ α) := by
  intro s e' s' h
  simp only [throw_apply, EStateM.Result.error.injEq] at h
  rwa [← h.1]

/-- So does a sequence that stops at once. -/
theorem avoids_throw_bind {e : ε} {f : α → EStateM ε σ β} (he : ¬ bad e) :
    Avoids bad ((throw e : EStateM ε σ α) >>= f) :=
  fun s e' s' h => avoids_throw he s e' s' h

/-- A choice avoids what both of its branches avoid. -/
theorem avoids_ite {c : Prop} [Decidable c] {x y : EStateM ε σ α} (hx : c → Avoids bad x)
    (hy : ¬ c → Avoids bad y) : Avoids bad (if c then x else y) := by
  split_ifs with hc
  · exact hx hc
  · exact hy hc

/-- A sequence avoids what both of its parts avoid. -/
theorem Avoids.bind {x : EStateM ε σ α} {f : α → EStateM ε σ β} (hx : Avoids bad x)
    (hf : ∀ a, Avoids bad (f a)) : Avoids bad (x >>= f) := by
  intro s e s' h
  rcases bind_eq_error_iff.mp h with h | ⟨a, s₁, -, h⟩
  · exact hx _ _ _ h
  · exact hf a _ _ _ h

/-- A zoomed program avoids what the program on the part avoids. -/
theorem Avoids.zoom {l : Lens τ σ} {x : EStateM ε σ α} (hx : Avoids bad x) :
    Avoids bad (l.zoom x) := by
  intro t e t' h
  cases hr : x (l.view t) with
  | ok a s => rw [Lens.zoom_of_ok hr] at h; cases h
  | error e' s =>
    rw [Lens.zoom_of_error hr] at h
    cases h
    exact hx _ _ _ hr

/-! ## What a program leaves as it was -/

/-- Whenever the program returns, it has left the part `f` of the state as it was. -/
def Keeps (f : σ → τ) (x : EStateM ε σ α) : Prop :=
  ∀ s a s', x s = .ok a s' → f s' = f s

variable {f : σ → τ}

/-- `pure` changes nothing. -/
theorem keeps_pure (a : α) : Keeps f (pure a : EStateM ε σ α) := by
  intro s a' s' h
  cases h
  rfl

/-- `get` changes nothing. -/
theorem keeps_get : Keeps f (get : EStateM ε σ σ) := by
  intro s a s' h
  cases h
  rfl

/-- `modify` keeps what its function keeps. -/
theorem keeps_modify {g : σ → σ} (h : ∀ s, f (g s) = f s) :
    Keeps f (modify g : EStateM ε σ PUnit) := by
  intro s a s' hr
  cases hr
  exact h s

/-- `throw` does not return. -/
theorem keeps_throw (e : ε) : Keeps f (throw e : EStateM ε σ α) := by
  intro s a s' h
  cases h

/-- A choice keeps what both of its branches keep. -/
theorem keeps_ite {c : Prop} [Decidable c] {x y : EStateM ε σ α} (hx : Keeps f x)
    (hy : Keeps f y) : Keeps f (if c then x else y) := by
  split_ifs
  · exact hx
  · exact hy

/-- A program under a condition keeps what it keeps without it. -/
theorem keeps_doIf {c : Prop} [Decidable c] {x : EStateM ε σ Unit} (hx : Keeps f x) :
    Keeps f (doIf c x) :=
  keeps_ite hx (keeps_pure ())

/-- A sequence keeps what both of its parts keep. -/
theorem Keeps.bind {x : EStateM ε σ α} {g : α → EStateM ε σ β} (hx : Keeps f x)
    (hg : ∀ a, Keeps f (g a)) : Keeps f (x >>= g) := by
  intro s b s' h
  obtain ⟨a, s₁, h₁, h₂⟩ := bind_eq_ok_iff.mp h
  exact (hg a s₁ b s' h₂).trans (hx s a s₁ h₁)

/-- A counted loop keeps what each of its rounds keeps. -/
theorem keeps_forRange {n : ℕ} {a : α} {body : ℕ → α → EStateM ε σ α}
    (h : ∀ i a, Keeps f (body i a)) : Keeps f (forRange n a body) := by
  suffices ∀ k i a, Keeps f (forFrom body i k a) from this n 0 a
  intro k
  induction k with
  | zero => exact fun i a => keeps_pure a
  | succ k ih => exact fun i a => (h i a).bind fun a' => ih (i + 1) a'

/-! ## How a program ends -/

/-- From a state, the program returns with the postcondition `Q`, or it stops with the
postcondition `E`. -/
def Ends (x : EStateM ε σ α) (s : σ) (Q : α → σ → Prop) (E : ε → σ → Prop) : Prop :=
  (∀ a s', x s = .ok a s' → Q a s') ∧ ∀ e s', x s = .error e s' → E e s'

variable {Q Q' : α → σ → Prop} {E E' : ε → σ → Prop} {s : σ}

/-- A program that is known to return. -/
theorem ends_of_ok {x : EStateM ε σ α} {a : α} {s' : σ} (h : x s = .ok a s') (hQ : Q a s') :
    Ends x s Q E := by
  refine ⟨fun a' s'' h' => ?_, fun e s'' h' => ?_⟩
  · rw [h] at h'
    cases h'
    exact hQ
  · rw [h] at h'
    cases h'

/-- A program that is known to stop. -/
theorem ends_of_error {x : EStateM ε σ α} {e : ε} {s' : σ} (h : x s = .error e s')
    (hE : E e s') : Ends x s Q E := by
  refine ⟨fun a s'' h' => ?_, fun e' s'' h' => ?_⟩
  · rw [h] at h'
    cases h'
  · rw [h] at h'
    cases h'
    exact hE

/-- `pure` returns at once. -/
theorem ends_pure {a : α} (h : Q a s) : Ends (pure a) s Q E := ends_of_ok (pure_apply a s) h

/-- The two ways in which a program ends. -/
theorem Ends.cases {x : EStateM ε σ α} (h : Ends x s Q E) :
    (∃ a s', x s = .ok a s' ∧ Q a s') ∨ ∃ e s', x s = .error e s' ∧ E e s' := by
  cases hx : x s with
  | ok a s' => exact .inl ⟨a, s', rfl, h.1 a s' hx⟩
  | error e s' => exact .inr ⟨e, s', rfl, h.2 e s' hx⟩

/-- Programs with the same result end in the same way. -/
theorem Ends.congr {x y : EStateM ε σ α} {s' : σ} (h : x s = y s') (hy : Ends y s' Q E) :
    Ends x s Q E := by
  rwa [Ends, h]

/-- The rule of consequence. -/
theorem Ends.mono {x : EStateM ε σ α} (h : Ends x s Q E) (hQ : ∀ a s', Q a s' → Q' a s')
    (hE : ∀ e s', E e s' → E' e s') : Ends x s Q' E' := by
  rcases h.cases with ⟨a, s', hx, ha⟩ | ⟨e, s', hx, he⟩
  · exact ends_of_ok hx (hQ a s' ha)
  · exact ends_of_error hx (hE e s' he)

/-- The rule of conjunction. -/
theorem Ends.and {x : EStateM ε σ α} (h : Ends x s Q E) (h' : Ends x s Q' E') :
    Ends x s (fun a s' => Q a s' ∧ Q' a s') fun e s' => E e s' ∧ E' e s' :=
  ⟨fun a s' hx => ⟨h.1 a s' hx, h'.1 a s' hx⟩, fun e s' hx => ⟨h.2 e s' hx, h'.2 e s' hx⟩⟩

/-- The rule of sequences. -/
theorem Ends.bind {x : EStateM ε σ α} {g : α → EStateM ε σ β} {R : β → σ → Prop}
    (h : Ends x s Q E) (hg : ∀ a s', Q a s' → Ends (g a) s' R E) : Ends (x >>= g) s R E := by
  rcases h.cases with ⟨a, s', hx, ha⟩ | ⟨e, s', hx, he⟩
  · exact Ends.congr (Lib.bind_of_ok hx) (hg a s' ha)
  · exact ends_of_error (bind_of_error hx) he

/-- A sequence whose first part is known to return ends as its second part does. -/
theorem Ends.bind_of_ok {x : EStateM ε σ α} {g : α → EStateM ε σ β} {R : β → σ → Prop} {a : α}
    {s' : σ} (h : x s = .ok a s') (hg : Ends (g a) s' R E) : Ends (x >>= g) s R E :=
  Ends.congr (Lib.bind_of_ok h) hg

/-- The rule of counted loops. -/
theorem ends_forRange {n : ℕ} {a : α} {body : ℕ → α → EStateM ε σ α} (I : ℕ → α → σ → Prop)
    (h0 : I 0 a s) (hstep : ∀ i a s, i < n → I i a s → Ends (body i a) s (I (i + 1)) E) :
    Ends (forRange n a body) s (I n) E := by
  suffices ∀ k i a s, i + k = n → I i a s → Ends (forFrom body i k a) s (I n) E from
    this n 0 a s (by omega) h0
  intro k
  induction k with
  | zero =>
    intro i a s hi hI
    obtain rfl : i = n := by omega
    exact ends_pure hI
  | succ k ih =>
    intro i a s hi hI
    exact (hstep i a s (by omega) hI).bind fun a' s' hI' => ih (i + 1) a' s' (by omega) hI'

/-- A program on a part of the state ends as it does on the part alone. -/
theorem Ends.zoom {l : Lens τ σ} {x : EStateM ε σ α} {t : τ} (h : Ends x (l.view t) Q E) :
    Ends (l.zoom x) t (fun a t' => ∃ s, t' = l.set s t ∧ Q a s)
      fun e t' => ∃ s, t' = l.set s t ∧ E e s := by
  rcases h.cases with ⟨a, s', hx, ha⟩ | ⟨e, s', hx, he⟩
  · exact ends_of_ok (Lens.zoom_of_ok hx) ⟨s', rfl, ha⟩
  · exact ends_of_error (Lens.zoom_of_error hx) ⟨s', rfl, he⟩

/-- Whether a program has returned. -/
def returned : EStateM.Result ε σ α → Bool
  | .ok _ _ => true
  | .error _ _ => false

/-- A program that returns does so with its postcondition. -/
theorem Ends.of_returned {x : EStateM ε σ α} (h : Ends x s Q E) (hx : returned (x s) = true) :
    ∃ a s', x s = .ok a s' ∧ Q a s' := by
  rcases h.cases with hok | ⟨e, s', herr, -⟩
  · exact hok
  · rw [herr] at hx
    cases hx

/-- A program that avoids an error ends without it. -/
theorem Avoids.ends {x : EStateM ε σ α} (h : Avoids bad x) (s : σ) :
    Ends x s (fun _ _ => True) fun e _ => ¬ bad e := by
  cases hx : x s with
  | ok a s' => exact ends_of_ok hx trivial
  | error e s' => exact ends_of_error hx (h s e s' hx)

/-! ## What a program leaves as it was, however it ends -/

/-- Whether the program returns or stops, it has left the part `f` of the state as it was. -/
def Leaves (f : σ → τ) (x : EStateM ε σ α) : Prop :=
  ∀ s, Ends x s (fun _ s' => f s' = f s) fun _ s' => f s' = f s

/-- `pure` leaves everything. -/
theorem leaves_pure (a : α) : Leaves f (pure a : EStateM ε σ α) := fun _ => ends_pure rfl

/-- `get` leaves everything. -/
theorem leaves_get : Leaves f (get : EStateM ε σ σ) := fun s => ends_of_ok (get_apply s) rfl

/-- `throw` leaves everything. -/
theorem leaves_throw (e : ε) : Leaves f (throw e : EStateM ε σ α) :=
  fun s => ends_of_error (throw_apply e s) rfl

/-- What is left is left together with what depends on it. -/
theorem Leaves.comp {ρ : Type} {x : EStateM ε σ α} (h : Leaves f x) (g : τ → ρ) :
    Leaves (fun s => g (f s)) x := fun s =>
  (h s).mono (fun _ _ heq => congrArg g heq) fun _ _ heq => congrArg g heq

/-- Two parts that are left are left together. -/
theorem Leaves.prod {ρ : Type} {g : σ → ρ} {x : EStateM ε σ α} (hf : Leaves f x)
    (hg : Leaves g x) : Leaves (fun s => (f s, g s)) x := fun s =>
  ⟨fun a s' h => Prod.ext ((hf s).1 a s' h) ((hg s).1 a s' h),
    fun e s' h => Prod.ext ((hf s).2 e s' h) ((hg s).2 e s' h)⟩

/-- A choice leaves what both of its branches leave. -/
theorem leaves_ite {c : Prop} [Decidable c] {x y : EStateM ε σ α} (hx : Leaves f x)
    (hy : Leaves f y) : Leaves f (if c then x else y) := by
  split_ifs
  · exact hx
  · exact hy

/-- A program under a condition leaves what it leaves without it. -/
theorem leaves_doIf {c : Prop} [Decidable c] {x : EStateM ε σ Unit} (hx : Leaves f x) :
    Leaves f (doIf c x) :=
  leaves_ite hx (leaves_pure ())

/-- A sequence leaves what both of its parts leave. -/
theorem Leaves.bind {x : EStateM ε σ α} {g : α → EStateM ε σ β} (hx : Leaves f x)
    (hg : ∀ a, Leaves f (g a)) : Leaves f (x >>= g) := fun s =>
  Ends.bind (hx s) fun a s' hs' => (hg a s').mono (fun _ _ h => h.trans hs') fun _ _ h => h.trans hs'

/-- A counted loop leaves what each of its rounds leaves. -/
theorem leaves_forRange {n : ℕ} {a : α} {body : ℕ → α → EStateM ε σ α}
    (h : ∀ i a, Leaves f (body i a)) : Leaves f (forRange n a body) := fun s =>
  ends_forRange (fun _ _ s' => f s' = f s) rfl fun i a s' _ hs' =>
    (h i a s').mono (fun _ _ h => h.trans hs') fun _ _ h => h.trans hs'

/-- A program on a part of the state leaves what its part has no share in. -/
theorem leaves_zoom {ρ : Type} {g : σ → ρ} {l : Lens σ τ} (h : ∀ t s, g (l.set t s) = g s)
    (x : EStateM ε τ α) : Leaves g (l.zoom x) := fun s => by
  cases hx : x (l.view s) with
  | ok a t => exact ends_of_ok (Lens.zoom_of_ok hx) (h t s)
  | error e t => exact ends_of_error (Lens.zoom_of_error hx) (h t s)

/-- And it leaves what it leaves on its part. -/
theorem Leaves.zoom {ρ : Type} {g : σ → ρ} {k : τ → ρ} {l : Lens σ τ} {x : EStateM ε τ α}
    (hx : Leaves k x) (hview : ∀ s, k (l.view s) = g s) (hset : ∀ t s, g (l.set t s) = k t) :
    Leaves g (l.zoom x) := fun s =>
  (hx (l.view s)).zoom.mono
    (fun _ _ ⟨t, hs', ht⟩ => by rw [hs', hset, ht, hview])
    fun _ _ ⟨t, hs', ht⟩ => by rw [hs', hset, ht, hview]

/-- A program that leaves a part as it was leaves the whole state as it was. -/
theorem Leaves.zoom_id {l : Lens σ τ} (hl : l.Lawful) {x : EStateM ε τ α} (hx : Leaves id x) :
    Leaves id (l.zoom x) := fun s =>
  (hx (l.view s)).zoom.mono
    (fun _ s' ⟨t, hs', ht⟩ => by rw [hs', show t = l.view s from ht, hl.set_view])
    fun _ s' ⟨t, hs', ht⟩ => by rw [hs', show t = l.view s from ht, hl.set_view]

end L4Rdma.Lib
