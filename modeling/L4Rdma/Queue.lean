import L4Rdma.Pool.Kinds

/-!
# The head of a queue

`Q::enqueue` in `server/src/queue.cc`. The head is a 32-bit counter and the size a 64-bit one.
-/

namespace L4Rdma.Q

/-- `enqueue`: the slot at the head, and the queue with the head moved on. -/
def enqueue (q : Queue) : ℕ × Queue :=
  let slot := q.head
  let head := (q.head + 1) % 2 ^ 32
  (slot, { q with head := if head ≥ q.size then 0 else head })

variable {q : Queue}

/-- `enqueue` gives the slot at the head. -/
@[simp] theorem enqueue_fst : (enqueue q).1 = q.head := rfl

/-- It leaves the size of the queue. -/
@[simp] theorem enqueue_size : (enqueue q).2.size = q.size := rfl

/-- The head goes around the slots of a queue that has no more slots than the counter has values. -/
theorem enqueue_head (hsize : q.size ≤ 2 ^ 32) (hhead : q.head < q.size) :
    (enqueue q).2.head = (q.head + 1) % q.size := by
  show (if (q.head + 1) % 2 ^ 32 ≥ q.size then 0 else (q.head + 1) % 2 ^ 32) = _
  rcases Nat.lt_or_ge (q.head + 1) q.size with hlt | hge
  · rw [Nat.mod_eq_of_lt hlt, Nat.mod_eq_of_lt (by omega), if_neg (by omega)]
  · obtain heq : q.head + 1 = q.size := by omega
    rw [heq, Nat.mod_self]
    split_ifs with h
    · rfl
    · rcases Nat.lt_or_ge q.size (2 ^ 32) with hlt | hge'
      · rw [Nat.mod_eq_of_lt hlt] at h
        omega
      · have : q.size = 2 ^ 32 := by omega
        rw [this, Nat.mod_self]

/-- In a larger queue it goes around the values of the counter. -/
theorem enqueue_head_of_gt (hsize : 2 ^ 32 < q.size) :
    (enqueue q).2.head = (q.head + 1) % 2 ^ 32 := by
  have hlt : (q.head + 1) % 2 ^ 32 < 2 ^ 32 := Nat.mod_lt _ (by decide)
  show (if (q.head + 1) % 2 ^ 32 ≥ q.size then 0 else (q.head + 1) % 2 ^ 32) = _
  rw [if_neg (by omega)]

/-- The head stays inside the queue. -/
theorem enqueue_head_lt (hsize : 0 < q.size) : (enqueue q).2.head < q.size := by
  show (if (q.head + 1) % 2 ^ 32 ≥ q.size then 0 else (q.head + 1) % 2 ^ 32) < q.size
  split_ifs with h
  · exact hsize
  · omega

end L4Rdma.Q
