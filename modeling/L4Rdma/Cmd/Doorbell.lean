import L4Rdma.Cmd.Call
import L4Rdma.Lib.Mask
import L4Rdma.Lib.Ring

/-!
# Ringing the doorbell of several slots

`ring_doorbell` in `server/src/cmd.cc` adds a power of two for each slot, which gives the set of the
slots only if no slot is there twice and all are below 32. The slots that successive calls of
`enqueue` return are such a set as long as the queue has no more than 32 slots and they do not go
around it (`enqueues_ring`).
-/

namespace L4Rdma

open Lib Device

namespace Q

/-- Successive calls of `enqueue`: the slots that they return, and the queue after them. -/
def enqueues : ℕ → Queue → List ℕ × Queue
  | 0, q => ([], q)
  | k + 1, q =>
    let (slot, q) := enqueue q
    let (slots, q) := enqueues k q
    (slot :: slots, q)

variable {q : Queue}

/-- The slots follow the head around the queue. -/
theorem enqueues_spec (hsize : q.size ≤ 2 ^ 32) (hhead : q.head < q.size) (k : ℕ) :
    (enqueues k q).1 = (List.range k).map (fun i => (q.head + i) % q.size) ∧
      (enqueues k q).2.head = (q.head + k) % q.size ∧ (enqueues k q).2.size = q.size := by
  induction k generalizing q with
  | zero => exact ⟨rfl, (Nat.mod_eq_of_lt hhead).symm, rfl⟩
  | succ k ih =>
    let q' := (enqueue q).2
    have hhead' : q'.head = (q.head + 1) % q.size := enqueue_head hsize hhead
    have hlt : q'.head < q'.size := enqueue_head_lt (Nat.zero_lt_of_lt hhead)
    have hnext : ∀ i, (q'.head + i) % q'.size = (q.head + (i + 1)) % q.size := by
      intro i
      rw [hhead', enqueue_size, Nat.mod_add_mod, Nat.add_assoc, Nat.add_comm 1 i]
    obtain ⟨hslots, hend, hsame⟩ := ih (q := q') hsize hlt
    refine ⟨?_, ?_, hsame⟩
    · show q.head :: (enqueues k q').1 = _
      rw [hslots, List.range_succ_eq_map, List.map_cons, List.map_map, Nat.add_zero,
        Nat.mod_eq_of_lt hhead]
      exact congrArg _ (List.map_congr_left fun i _ => hnext i)
    · show (enqueues k q').2.head = _
      rw [hend, hnext]

/-- They are different if there are no more of them than the queue has slots. -/
theorem enqueues_nodup {k : ℕ} (hk : k ≤ q.size) :
    ((List.range k).map fun i => (q.head + i) % q.size).Nodup := by
  apply List.Nodup.map_on _ List.nodup_range
  intro i hi j hj heq
  have hi' : i < k := List.mem_range.mp hi
  have hj' : j < k := List.mem_range.mp hj
  rcases Nat.le_total i j with hle | hle
  · have hsame := eq_of_mod_eq (Nat.add_le_add_left hle q.head) (by omega) heq
    omega
  · have hsame := eq_of_mod_eq (Nat.add_le_add_left hle q.head) (by omega) heq.symm
    omega

end Q

namespace CMD

/-- `ringDoorbell` writes the mask of the slots if they are different. -/
theorem ringDoorbell_mask {slots : List ℕ} (hlt : ∀ s ∈ slots, s < 32) (hnodup : slots.Nodup)
    (a : CMD_Args) : ∃ a', ringDoorbell slots a = .ok () a' ∧
      ∀ s, (ioread32be a'.dbv).getLsbD s = decide (s ∈ slots) := by
  have hbits : ∀ s, (mask 32 slots).getLsbD s = decide (s ∈ slots) := getLsbD_mask hnodup hlt
  refine ⟨_, ringDoorbell_run hlt a, fun s => ?_⟩
  show (ioread32be (iowrite32be (mask 32 slots))).getLsbD s = _
  rw [ioread32be_iowrite32be, hbits]

/-- The slots that a number of calls of `enqueue` return on a queue of at most 32 slots, up to once
around: they are different and follow the head, the head stays inside the queue, and the doorbell of
them is the word with exactly their bits. -/
theorem enqueues_ring (q : Q.Queue) (hhead : q.head < q.size) (hsize : q.size ≤ 32) (k : ℕ)
    (hk : k ≤ q.size) (a : CMD_Args) :
    (Q.enqueues k q).1 = (List.range k).map (fun i => (q.head + i) % q.size) ∧
      (Q.enqueues k q).1.Nodup ∧ (Q.enqueues k q).2.head < (Q.enqueues k q).2.size ∧
      ∃ a', ringDoorbell (Q.enqueues k q).1 a = .ok () a' ∧
        ∀ s, (ioread32be a'.dbv).getLsbD s = true ↔ s ∈ (Q.enqueues k q).1 := by
  have hpos : 0 < q.size := Nat.zero_lt_of_lt hhead
  obtain ⟨hslots, hend, hsame⟩ := Q.enqueues_spec (Nat.le_trans hsize (by decide)) hhead k
  have hnodup : (Q.enqueues k q).1.Nodup := by
    rw [hslots]
    exact Q.enqueues_nodup hk
  have hlt : ∀ s ∈ (Q.enqueues k q).1, s < 32 := by
    rw [hslots]
    intro s hs
    obtain ⟨i, -, rfl⟩ := List.mem_map.mp hs
    exact Nat.lt_of_lt_of_le (Nat.mod_lt _ hpos) hsize
  have hinside : (Q.enqueues k q).2.head < (Q.enqueues k q).2.size := by
    rw [hend, hsame]
    exact Nat.mod_lt _ hpos
  obtain ⟨a', hring, hbits⟩ := ringDoorbell_mask hlt hnodup a
  refine ⟨hslots, hnodup, hinside, a', hring, fun s => ?_⟩
  rw [hbits]
  exact decide_eq_true_iff

/-- Three slots of a ring of four, from the third one on: they go around its end. -/
theorem threeSlots_ring :
    ∃ a', ringDoorbell [2, 3, 0] (freshArgs 4) = .ok () a' ∧
      ∀ s, (ioread32be a'.dbv).getLsbD s = true ↔ s ∈ [2, 3, 0] := by
  obtain ⟨-, -, -, hring⟩ := enqueues_ring { (freshArgs 4).cq with head := 2 } (by decide) (by decide) 3
    (by decide) (freshArgs 4)
  exact hring

end CMD

end L4Rdma
