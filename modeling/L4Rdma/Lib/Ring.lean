import Mathlib

/-!
# A ring of slots

Items `0`, `1`, `2`, ... are written one after the other into `n` slots, item `k` into slot
`k % n`. `Filled n m item init slots` says what the slots contain after `m` items: each of the last
`n` items is in its slot, and the slots that have not been written yet contain what they did at the
start.
-/

namespace L4Rdma.Lib

variable {α : Type} {n m : ℕ} {item item' init slots slots' : ℕ → α}

/-- The slots after the first `m` items. -/
structure Filled (n m : ℕ) (item init slots : ℕ → α) : Prop where
  last : ∀ k, k < m → m ≤ k + n → slots (k % n) = item k
  rest : ∀ i, i < n → m ≤ i → slots i = init i

/-- Before the first item. -/
theorem filled_zero (n : ℕ) (item slots : ℕ → α) : Filled n 0 item slots slots where
  last k hk := absurd hk (Nat.not_lt_zero k)
  rest _ _ _ := rfl

/-- Two of `n` successive items are in different slots. -/
theorem eq_of_mod_eq {j k : ℕ} (hjk : j ≤ k) (hk : k < j + n) (h : j % n = k % n) : j = k :=
  Nat.mod_injOn_Ico j n (by simp; omega) (by simp; omega) h

/-- The next item goes to its slot, and leaves the others. -/
theorem Filled.push (h : Filled n m item init slots) (hitem : ∀ k, k < m → item' k = item k)
    (hnew : slots' (m % n) = item' m) (hold : ∀ i, i ≠ m % n → slots' i = slots i) :
    Filled n (m + 1) item' init slots' where
  last k hk hkn := by
    rcases Nat.lt_or_ge k m with hlt | hge
    · have hne : k % n ≠ m % n := fun he => by
        have := eq_of_mod_eq (by omega) (by omega) he
        omega
      rw [hold _ hne, h.last k hlt (by omega), hitem k hlt]
    · obtain rfl : k = m := by omega
      exact hnew
  rest i hi him := by
    have hne : i ≠ m % n := by
      rw [Nat.mod_eq_of_lt (by omega)]
      omega
    rw [hold i hne, h.rest i hi (by omega)]

end L4Rdma.Lib
