import L4Rdma.Lib.Exec

/-!
# Waiting for a register with a timeout

A loop reads a register until its value says that the wait is over. Between two reads it looks at the
clock, gives up if too much time has passed, and sleeps. What the register contains at each read, and
how long a read takes, is up to the environment (`Watch`). Since a sleep takes at least its time, the
loop ends after a bounded number of reads, and which read it ends with depends on the first value
that is not busy and the first look at the clock that is too late (`pollWhile_cases`).
-/

namespace L4Rdma.Lib

variable {ε V : Type}

/-- A register and a clock, as a waiting program sees them. -/
structure Watch (V : Type) where
  /-- The value that read number `n` gives. -/
  value : ℕ → V
  /-- How much time goes by until read number `n` is done and the clock is looked at, with all that
  sleeping took longer than it had to. -/
  delay : ℕ → ℕ
  /-- The number of reads so far. -/
  reads : ℕ
  /-- The time. -/
  time : ℕ

/-- Reads the register. -/
def Watch.read : EStateM ε (Watch V) V := fun w =>
  .ok (w.value w.reads) { w with reads := w.reads + 1, time := w.time + w.delay w.reads }

/-- Looks at the clock. -/
def Watch.now : EStateM ε (Watch V) ℕ := fun w => .ok w.time w

/-- Sleeps. -/
def Watch.sleep (pause : ℕ) : EStateM ε (Watch V) Unit := fun w =>
  .ok () { w with time := w.time + pause }

/-- The loop `while (busy(read())) { if (expired(now() - start)) throw late; sleep(pause); }`, for at
most `fuel` rounds. -/
def pollWhile (busy : V → Bool) (expired : ℕ → Bool) (pause : ℕ) (late stuck : ε) :
    ℕ → ℕ → EStateM ε (Watch V) Unit
  | 0, _ => throw stuck
  | fuel + 1, start => do
    let v ← Watch.read
    if busy v then
      let now ← Watch.now
      if expired (now - start) then throw late
      Watch.sleep pause
      pollWhile busy expired pause late stuck fuel start
    else return ()

/-! ## The rounds of the loop -/

/-- The state after a round in which the program has slept. -/
def Watch.round (pause : ℕ) (w : Watch V) : Watch V :=
  { w with reads := w.reads + 1, time := w.time + w.delay w.reads + pause }

/-- The state after a read. -/
def Watch.done (w : Watch V) : Watch V :=
  { w with reads := w.reads + 1, time := w.time + w.delay w.reads }

/-- The value that is read in round `k`. -/
def Watch.valueAt (w : Watch V) (k : ℕ) : V := w.value (w.reads + k)

/-- A sequence that begins with a read of the register. -/
@[simp] theorem Watch.read_bind {β : Type} (f : V → EStateM ε (Watch V) β) (w : Watch V) :
    (Watch.read >>= f) w = f (w.value w.reads) w.done := rfl

/-- A sequence that begins with a look at the clock. -/
@[simp] theorem Watch.now_bind {β : Type} (f : ℕ → EStateM ε (Watch V) β) (w : Watch V) :
    (Watch.now >>= f) w = f w.time w := rfl

/-- The time that the clock shows in round `k`. -/
def Watch.timeAt (pause : ℕ) (w : Watch V) (k : ℕ) : ℕ := (((Watch.round pause)^[k] w).done).time

variable {busy : V → Bool} {expired : ℕ → Bool} {pause fuel start k n : ℕ} {late stuck : ε}
  {w : Watch V}

/-- Rounds only count the reads and let time pass. -/
theorem Watch.iterate_round (pause : ℕ) (w : Watch V) (k : ℕ) :
    ((Watch.round pause)^[k] w).value = w.value ∧ ((Watch.round pause)^[k] w).delay = w.delay ∧
      ((Watch.round pause)^[k] w).reads = w.reads + k := by
  induction k with
  | zero => exact ⟨rfl, rfl, rfl⟩
  | succ k ih =>
    obtain ⟨hvalue, hdelay, hreads⟩ := ih
    rw [Function.iterate_succ_apply']
    refine ⟨hvalue, hdelay, ?_⟩
    show ((Watch.round pause)^[k] w).reads + 1 = _
    rw [hreads, Nat.add_assoc]

/-- The rounds before round `k` take at least their sleep. -/
theorem Watch.le_timeAt (pause : ℕ) (w : Watch V) (k : ℕ) : w.time + k * pause ≤ w.timeAt pause k := by
  have hstart : ∀ k, w.time + k * pause ≤ ((Watch.round pause)^[k] w).time := by
    intro k
    induction k with
    | zero => simp
    | succ k ih =>
      rw [Function.iterate_succ_apply']
      show _ ≤ ((Watch.round pause)^[k] w).time + _ + pause
      rw [Nat.add_mul]
      omega
  exact (hstart k).trans (Nat.le_add_right _ _)

/-- The loop comes to round `k`: it has found the register busy before, and has not given up. -/
def Waits (busy : V → Bool) (expired : ℕ → Bool) (pause start : ℕ) (w : Watch V) (k : ℕ) : Prop :=
  ∀ j < k, busy (w.valueAt j) = true ∧ expired (w.timeAt pause j - start) = false

/-- The loop sees in round `k` that the wait is over. -/
def Clears (busy : V → Bool) (expired : ℕ → Bool) (pause start : ℕ) (w : Watch V) (k : ℕ) : Prop :=
  Waits busy expired pause start w k ∧ busy (w.valueAt k) = false

/-- The loop gives up in round `k`. -/
def GivesUp (busy : V → Bool) (expired : ℕ → Bool) (pause start : ℕ) (w : Watch V) (k : ℕ) : Prop :=
  Waits busy expired pause start w k ∧ busy (w.valueAt k) = true ∧
    expired (w.timeAt pause k - start) = true

/-- A round in which the loop goes on. -/
theorem pollWhile_round (hbusy : busy (w.valueAt 0) = true)
    (hnot : expired (w.timeAt pause 0 - start) = false) :
    pollWhile busy expired pause late stuck (fuel + 1) start w =
      pollWhile busy expired pause late stuck fuel start (w.round pause) := by
  have hnow : expired (w.time + w.delay w.reads - start) = false := hnot
  have hvalue : busy (w.value w.reads) = true := hbusy
  have hstay : expired (w.done.time - start) = false := hnow
  rw [pollWhile, Watch.read_bind, hvalue, if_pos rfl, Watch.now_bind]
  simp only [hstay]
  rfl

/-- So the rounds before round `k` can be left out. -/
theorem Waits.pollWhile_eq (h : Waits busy expired pause start w k) (fuel : ℕ) :
    pollWhile busy expired pause late stuck (fuel + k) start w =
      pollWhile busy expired pause late stuck fuel start ((Watch.round pause)^[k] w) := by
  induction k generalizing fuel with
  | zero => rfl
  | succ k ih =>
    obtain ⟨hbusy, hnot⟩ := h k (Nat.lt_succ_self k)
    have hrest : Waits busy expired pause start w k := fun j hj => h j (Nat.lt_succ_of_lt hj)
    obtain ⟨hvalue, -, hreads⟩ := Watch.iterate_round pause w k
    have hbusy' : busy (((Watch.round pause)^[k] w).valueAt 0) = true := by
      rwa [Watch.valueAt, hvalue, hreads]
    rw [show fuel + (k + 1) = fuel + 1 + k by omega, ih hrest, pollWhile_round hbusy' hnot,
      Function.iterate_succ_apply']

/-- The loop returns after the first value that is not busy. -/
theorem Clears.pollWhile_eq (h : Clears busy expired pause start w k) (hfuel : k < fuel) :
    pollWhile busy expired pause late stuck fuel start w =
      .ok () ((Watch.round pause)^[k] w).done := by
  obtain ⟨fuel, rfl⟩ := Nat.exists_eq_add_of_lt hfuel
  obtain ⟨hvalue, -, hreads⟩ := Watch.iterate_round pause w k
  have hclear : busy (((Watch.round pause)^[k] w).value ((Watch.round pause)^[k] w).reads) = false := by
    rw [hvalue, hreads]
    exact h.2
  rw [show k + fuel + 1 = fuel + 1 + k by omega, h.1.pollWhile_eq, pollWhile, Watch.read_bind, hclear]
  rfl

/-- It gives up after the first look at the clock that is too late. -/
theorem GivesUp.pollWhile_eq (h : GivesUp busy expired pause start w k) (hfuel : k < fuel) :
    pollWhile busy expired pause late stuck fuel start w =
      .error late ((Watch.round pause)^[k] w).done := by
  obtain ⟨fuel, rfl⟩ := Nat.exists_eq_add_of_lt hfuel
  obtain ⟨hvalue, -, hreads⟩ := Watch.iterate_round pause w k
  have hbusy : busy (((Watch.round pause)^[k] w).value ((Watch.round pause)^[k] w).reads) = true := by
    rw [hvalue, hreads]
    exact h.2.1
  have hlate : expired (((Watch.round pause)^[k] w).done.time - start) = true := h.2.2
  rw [show k + fuel + 1 = fuel + 1 + k by omega, h.1.pollWhile_eq, pollWhile, Watch.read_bind, hbusy,
    if_pos rfl, Watch.now_bind]
  simp only [hlate]
  rfl

/-! ## How the loop ends -/

/-- The loop ends in one of the first `n + 1` rounds, if that many sleeps are too long. -/
theorem exists_last (hexpired : ∀ t, n * pause ≤ t → expired t = true) (hstart : start ≤ w.time) :
    (∃ k ≤ n, Clears busy expired pause start w k) ∨
      ∃ k ≤ n, GivesUp busy expired pause start w k := by
  classical
  -- The first round in which the loop does not go on.
  have hend : ∃ k, ¬ (busy (w.valueAt k) = true ∧ expired (w.timeAt pause k - start) = false) := by
    refine ⟨n, fun h => ?_⟩
    have hle := Watch.le_timeAt pause w n
    rw [hexpired _ (by omega)] at h
    exact Bool.false_ne_true h.2.symm
  have hwaits : Waits busy expired pause start w (Nat.find hend) := fun j hj =>
    not_not.mp (Nat.find_min hend hj)
  have hle : Nat.find hend ≤ n := by
    refine Nat.find_le fun h => ?_
    have hle := Watch.le_timeAt pause w n
    rw [hexpired _ (by omega)] at h
    exact Bool.false_ne_true h.2.symm
  have hspec := Nat.find_spec hend
  cases hbusy : busy (w.valueAt (Nat.find hend)) with
  | false => exact .inl ⟨_, hle, hwaits, hbusy⟩
  | true =>
    refine .inr ⟨_, hle, hwaits, hbusy, ?_⟩
    by_contra hnot
    exact hspec ⟨hbusy, Bool.eq_false_iff.mpr hnot⟩

/-- With enough fuel the loop ends, with the first value that is not busy or the first look at the
clock that is too late. -/
theorem pollWhile_cases (busy : V → Bool) (late stuck : ε)
    (hexpired : ∀ t, n * pause ≤ t → expired t = true) (hstart : start ≤ w.time) (hfuel : n < fuel) :
    (∃ k ≤ n, Clears busy expired pause start w k ∧
      pollWhile busy expired pause late stuck fuel start w =
        .ok () ((Watch.round pause)^[k] w).done) ∨
    ∃ k ≤ n, GivesUp busy expired pause start w k ∧
      pollWhile busy expired pause late stuck fuel start w =
        .error late ((Watch.round pause)^[k] w).done := by
  rcases exists_last hexpired hstart with ⟨k, hk, hclears⟩ | ⟨k, hk, hgives⟩
  · exact .inl ⟨k, hk, hclears, hclears.pollWhile_eq (by omega)⟩
  · exact .inr ⟨k, hk, hgives, hgives.pollWhile_eq (by omega)⟩

/-- The loop does not see that the wait is over and give up as well. -/
theorem GivesUp.not_clears {j : ℕ} (h : GivesUp busy expired pause start w k) :
    ¬ Clears busy expired pause start w j := by
  rintro ⟨hwaits, hclear⟩
  rcases Nat.lt_trichotomy j k with hlt | rfl | hgt
  · rw [(h.1 j hlt).1] at hclear
    cases hclear
  · rw [h.2.1] at hclear
    cases hclear
  · have hnot := (hwaits k hgt).2
    rw [h.2.2] at hnot
    cases hnot

end L4Rdma.Lib
