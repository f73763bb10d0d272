import Mathlib

/-!
# The mask of a set of bits

A word that has the bits of a list set can be made by adding the powers of two, as long as no bit is
in the list twice (`getLsbD_mask`): then no sum has a carry, and adding is the same as or-ing.
-/

namespace L4Rdma.Lib

variable {w : ℕ} {l : List ℕ}

/-- The sum of the powers of two with exponents in a list. -/
def mask (w : ℕ) (l : List ℕ) : BitVec w := (l.map fun i => (1 : BitVec w) <<< i).sum

/-- One more bit. -/
theorem mask_cons (w i : ℕ) (l : List ℕ) : mask w (i :: l) = BitVec.twoPow w i + mask w l := by
  unfold mask BitVec.twoPow
  rw [List.map_cons, List.sum_cons]
  rfl

/-- If no bit is in the list twice, the bits that are set are the ones of the list. -/
theorem getLsbD_mask (hnodup : l.Nodup) (hlt : ∀ i ∈ l, i < w) (i : ℕ) :
    (mask w l).getLsbD i = decide (i ∈ l) := by
  induction l generalizing i with
  | nil =>
    unfold mask
    simp
  | cons j l ih =>
    obtain ⟨hnew, hrest⟩ := List.nodup_cons.mp hnodup
    have hbits : ∀ i, (mask w l).getLsbD i = decide (i ∈ l) :=
      ih hrest fun i hi => hlt i (List.mem_cons_of_mem j hi)
    have hj : j < w := hlt j List.mem_cons_self
    -- Bit `j` is not set in the rest, so that there is no carry.
    have hdisjoint : BitVec.twoPow w j &&& mask w l = 0#w := by
      apply BitVec.eq_of_getLsbD_eq
      intro i hi
      rw [BitVec.getLsbD_and, BitVec.getLsbD_twoPow, hbits, BitVec.getLsbD_zero]
      by_cases hij : j = i
      · rw [← hij, decide_eq_false hnew, Bool.and_false]
      · rw [decide_eq_false hij, Bool.and_false, Bool.false_and]
    calc (mask w (j :: l)).getLsbD i
        = (BitVec.twoPow w j + mask w l).getLsbD i := by rw [mask_cons]
      _ = (BitVec.twoPow w j ||| mask w l).getLsbD i := by
          rw [BitVec.add_eq_or_of_and_eq_zero _ _ hdisjoint]
      _ = (decide (j = i) || decide (i ∈ l)) := by
          rw [BitVec.getLsbD_or, BitVec.getLsbD_twoPow, hbits, decide_eq_true hj, Bool.true_and]
      _ = decide (i ∈ j :: l) := by
          rw [← Bool.decide_or, decide_eq_decide, List.mem_cons, eq_comm]

end L4Rdma.Lib
