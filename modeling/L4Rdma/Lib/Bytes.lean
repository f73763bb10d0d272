import Mathlib

/-!
# Words in the memory of a little-endian processor

A memory is a byte at every address. A word of 32 bits is kept in four bytes, the lowest one first.
-/

namespace L4Rdma.Lib

/-- A byte at every address. -/
abbrev Bytes : Type := ℕ → BitVec 8

/-- The word at an address. -/
def load32 (mem : Bytes) (a : ℕ) : BitVec 32 := mem (a + 3) ++ mem (a + 2) ++ mem (a + 1) ++ mem a

/-- The memory with a word at an address. -/
def store32 (mem : Bytes) (a : ℕ) (w : BitVec 32) : Bytes := fun b =>
  if a ≤ b ∧ b < a + 4 then w.extractLsb' (8 * (b - a)) 8 else mem b

variable {mem : Bytes} {a b : ℕ} {w : BitVec 32}

/-- A word is made of its bytes. -/
theorem append_extractLsb' (w : BitVec 32) :
    w.extractLsb' 24 8 ++ w.extractLsb' 16 8 ++ w.extractLsb' 8 8 ++ w.extractLsb' 0 8 = w := by
  refine BitVec.eq_of_getLsbD_eq fun i hi => ?_
  simp only [BitVec.getLsbD_append, BitVec.getLsbD_extractLsb']
  interval_cases i <;> rfl

/-- The word that has been stored is there. -/
theorem load32_store32_same (mem : Bytes) (a : ℕ) (w : BitVec 32) :
    load32 (store32 mem a w) a = w := by
  unfold load32 store32
  simp only [le_refl, Nat.le_add_right, Nat.lt_add_right_iff_pos, Nat.add_lt_add_iff_left, and_self,
    Nat.reduceLT, if_true, Nat.add_sub_cancel_left, Nat.sub_self, Nat.reduceMul]
  exact append_extractLsb' w

/-- Words that do not overlap with it are the same as before. -/
theorem load32_store32_of_apart (h : a + 4 ≤ b ∨ b + 4 ≤ a) :
    load32 (store32 mem a w) b = load32 mem b := by
  have hout : ∀ i < 4, ¬ (a ≤ b + i ∧ b + i < a + 4) := fun i hi => by omega
  have hzero : ¬ (a ≤ b ∧ b < a + 4) := hout 0 (by norm_num)
  unfold load32 store32
  rw [if_neg (hout 3 (by norm_num)), if_neg (hout 2 (by norm_num)), if_neg (hout 1 (by norm_num)),
    if_neg hzero]

end L4Rdma.Lib
