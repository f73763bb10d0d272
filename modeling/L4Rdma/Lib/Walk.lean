import Mathlib

/-!
# Walks along pointers

A walk starts at a point and goes from a point to the next one until it comes to a point where it
stops (`walk`). Nothing bounds it: it ends at the first stop that it visits (`walk_of_first`), and
without one it does not end (`walk_eq_none`). When the points are among finitely many, a walk that
meets a stop meets it within as many points as there are (`exists_stop_lt`).
-/

namespace L4Rdma.Lib

variable {α : Type} (next : α → α) (stop : α → Prop) [DecidablePred stop]

/-- Walks from `x` to the first stop, along at most `fuel` points. -/
def walk : ℕ → α → Option α
  | 0, _ => none
  | fuel + 1, x => if stop x then some x else walk fuel (next x)

variable {next stop}

/-- A walk ends at its first stop. -/
theorem walk_of_first {n fuel : ℕ} {x : α} (hstop : stop (next^[n] x))
    (hfirst : ∀ i < n, ¬ stop (next^[i] x)) (hfuel : n < fuel) :
    walk next stop fuel x = some (next^[n] x) := by
  induction n generalizing fuel x with
  | zero =>
    obtain ⟨fuel, rfl⟩ := Nat.exists_eq_add_of_lt hfuel
    have hx : stop x := hstop
    rw [Nat.zero_add, walk, if_pos hx]
    rfl
  | succ n ih =>
    obtain ⟨fuel, rfl⟩ : ∃ k, fuel = k + 1 := ⟨fuel - 1, by omega⟩
    have hx : ¬ stop x := hfirst 0 (by omega)
    rw [walk, if_neg hx, Function.iterate_succ_apply]
    exact ih hstop (fun i hi => hfirst (i + 1) (by omega)) (by omega)

/-- A walk without a stop does not end. -/
theorem walk_eq_none {fuel : ℕ} {x : α} (h : ∀ i < fuel, ¬ stop (next^[i] x)) :
    walk next stop fuel x = none := by
  induction fuel generalizing x with
  | zero => rfl
  | succ fuel ih =>
    have hx : ¬ stop x := h 0 (by omega)
    rw [walk, if_neg hx]
    exact ih fun i hi => h (i + 1) (by omega)

/-- A walk ends at a point of every set that it starts in and that the pointers lead into. -/
theorem walk_mem {P : α → Prop} (hnext : ∀ x, P (next x)) {fuel : ℕ} {x y : α} (hx : P x)
    (h : walk next stop fuel x = some y) : P y := by
  induction fuel generalizing x with
  | zero => cases h
  | succ fuel ih =>
    rw [walk] at h
    split_ifs at h
    · obtain rfl : x = y := Option.some.inj h
      exact hx
    · exact ih (hnext x) h

/-- When all points of a walk are in a finite set, a walk that meets a stop meets it within as many
points as the set has. -/
theorem exists_stop_lt {S : Finset α} {x : α} (hS : ∀ n, next^[n] x ∈ S)
    (h : ∃ n, stop (next^[n] x)) : ∃ n < S.card, stop (next^[n] x) := by
  classical
  refine ⟨Nat.find h, ?_, Nat.find_spec h⟩
  by_contra hge
  -- More points than the set has are visited before the first stop, so one is visited twice.
  obtain ⟨i, hi, j, hj, hne, heq⟩ := Finset.exists_ne_map_eq_of_card_lt_of_maps_to
    (s := Finset.range (S.card + 1)) (t := S) (f := fun n => next^[n] x) (by simp) fun n _ => hS n
  rw [Finset.mem_range] at hi hj
  wlog hij : i < j generalizing i j
  · exact this j hj i hi hne.symm heq.symm (by omega)
  -- The walk from the second visit is the walk from the first, and comes to the stop earlier.
  have hback : next^[Nat.find h - (j - i)] x = next^[Nat.find h] x := by
    calc next^[Nat.find h - (j - i)] x
        = next^[Nat.find h - j] (next^[i] x) := by
          rw [← Function.iterate_add_apply]
          congr 1
          omega
      _ = next^[Nat.find h - j] (next^[j] x) := congrArg _ heq
      _ = next^[Nat.find h] x := by
          rw [← Function.iterate_add_apply]
          congr 1
          omega
  refine Nat.find_min h (m := Nat.find h - (j - i)) (by omega) ?_
  rw [hback]
  exact Nat.find_spec h

end L4Rdma.Lib
