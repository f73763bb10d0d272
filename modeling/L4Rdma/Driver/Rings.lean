import L4Rdma.Driver.Payload

/-!
# The ring that the device is told about

A queue has `size` entries for the driver, which goes around them with `enqueue`. The device is told
the logarithm of the size, in a word of the queue's context that also has the index of its UAR page,
and goes around `2 ^ log_size` entries. The two go around the same entries exactly when the size is a
power of two for which the field has room (`sharesRing_iff_powerOfTwo`).
-/

namespace L4Rdma.Driver

open Lib Device

variable {δ Ctx : Type} {ctx ctx' : MLX5_Context δ} {l : Lens (MLX5_Context δ) (Q.State Ctx)}
  {qo : PA.ElementPtr} {size k : ℕ} {w : Word}

/-! ## The device's side -/

/-- The number that the device finds in the field for the logarithm. -/
def logSize (w : Word) : ℕ := ((w &&& 0x1f000000) >>> 24).toNat

/-- The number that the device finds in the field for the UAR page. -/
def uarField (w : Word) : ℕ := ((w &&& 0x00ffffff) >>> 0).toNat

/-- The slot to which the device writes entry `k`. -/
def writerSlot (w : Word) (k : ℕ) : ℕ := k % 2 ^ logSize w

/-- The field for the logarithm is in bits 24 to 28. -/
theorem logSize_eq (w : Word) : logSize w = w.toNat / 2 ^ 24 % 2 ^ 5 := by
  unfold logSize
  rw [BitVec.toNat_ushiftRight, BitVec.toNat_and, Nat.shiftRight_and_distrib,
    show (0x1f000000 : Word).toNat >>> 24 = 2 ^ 5 - 1 from rfl, Nat.and_two_pow_sub_one_eq_mod,
    Nat.shiftRight_eq_div_pow]

/-- The field for the UAR page is in bits 0 to 23. -/
theorem uarField_eq (w : Word) : uarField w = w.toNat % 2 ^ 24 := by
  unfold uarField
  rw [BitVec.toNat_ushiftRight, BitVec.toNat_and, Nat.shiftRight_zero,
    show (0x00ffffff : Word).toNat = 2 ^ 24 - 1 from rfl, Nat.and_two_pow_sub_one_eq_mod]

/-- The two fields do not overlap. -/
theorem logAndUar_toNat (log_size uar : ℕ) :
    (logAndUar log_size uar).toNat = 2 ^ 24 * (log_size % 2 ^ 5) + uar % 2 ^ 24 := by
  have hlog : (BitVec.ofNat 32 log_size <<< 24 &&& (0x1f000000 : Word)).toNat =
      2 ^ 24 * (log_size % 2 ^ 5) := by
    apply Nat.eq_of_testBit_eq
    intro i
    have hmask : (0x1f000000 : Word).toNat = 2 ^ 24 * (2 ^ 5 - 1) := rfl
    rw [BitVec.toNat_and, hmask, Nat.testBit_and, Nat.testBit_two_pow_mul, Nat.testBit_two_pow_mul,
      Nat.testBit_two_pow_sub_one, Nat.testBit_mod_two_pow]
    simp only [BitVec.toNat_shiftLeft, BitVec.toNat_ofNat, Nat.testBit_mod_two_pow,
      Nat.testBit_shiftLeft]
    by_cases hi : 24 ≤ i ∧ i < 29
    · have hlt : i - 24 < 5 ∧ i < 32 ∧ i - 24 < 32 := by omega
      simp [hi.1, hlt]
    · have hnot : ¬ 24 ≤ i ∨ ¬ i - 24 < 5 := by omega
      rcases hnot with hnot | hnot <;> simp [hnot]
  have huar : (BitVec.ofNat 32 uar <<< 0 &&& (0x00ffffff : Word)).toNat = uar % 2 ^ 24 := by
    have hmask : (0x00ffffff : Word).toNat = 2 ^ 24 - 1 := rfl
    rw [BitVec.toNat_and, hmask, Nat.and_two_pow_sub_one_eq_mod, BitVec.shiftLeft_zero,
      BitVec.toNat_ofNat]
    exact Nat.mod_mod_of_dvd uar (by decide)
  unfold logAndUar
  rw [BitVec.toNat_or, hlog, huar]
  exact (Nat.two_pow_add_eq_or_of_lt (Nat.mod_lt uar (by decide)) _).symm

/-- The device finds the logarithm, cut to the bits of its field. -/
theorem logSize_logAndUar (log_size uar : ℕ) :
    logSize (logAndUar log_size uar) = log_size % 2 ^ 5 := by
  rw [logSize_eq, logAndUar_toNat]
  omega

/-- The device finds the UAR page, cut to the bits of its field. -/
theorem uarField_logAndUar (log_size uar : ℕ) :
    uarField (logAndUar log_size uar) = uar % 2 ^ 24 := by
  rw [uarField_eq, logAndUar_toNat]
  omega

/-! ## The driver's side -/

/-- The slot from which the driver reads entry `k`. -/
def readerSlot (q : Q.Queue) (k : ℕ) : ℕ := (Q.enqueue ((fun q => (Q.enqueue q).2)^[k] q)).1

/-- The driver goes around its entries. -/
theorem readerSlot_eq {q : Q.Queue} (hsize : q.size ≤ 2 ^ 32) (hhead : q.head < q.size) (k : ℕ) :
    readerSlot q k = (q.head + k) % q.size := by
  have hafter : ((fun q => (Q.enqueue q).2)^[k] q).size = q.size ∧
      ((fun q => (Q.enqueue q).2)^[k] q).head = (q.head + k) % q.size := by
    induction k with
    | zero => exact ⟨rfl, (Nat.mod_eq_of_lt hhead).symm⟩
    | succ k ih =>
      obtain ⟨hs, hh⟩ := ih
      rw [Function.iterate_succ_apply']
      have hlt : ((fun q => (Q.enqueue q).2)^[k] q).head < q.size := by
        rw [hh]
        exact Nat.mod_lt _ (Nat.lt_of_le_of_lt (Nat.zero_le _) hhead)
      refine ⟨hs, ?_⟩
      rw [Q.enqueue_head (by rw [hs]; exact hsize) (by rw [hs]; exact hlt), hs, hh,
        Nat.mod_add_mod, Nat.add_assoc]
  exact hafter.2

/-! ## The two sides -/

/-- The driver's queue `q` and the context word `w` describe the same ring: it has as many slots on
both sides, the driver reads each entry from the slot to which the device wrote it, and the fields
of the word are the logarithm of the size and the index of the UAR page. -/
structure SameRing (q : Q.Queue) (w : Word) (uar : ℕ) : Prop where
  slots : 2 ^ logSize w = q.size
  slot : ∀ k, readerSlot q k = writerSlot w k
  log_size : logSize w = Nat.log2 q.size
  uar : uar < 2 ^ 24 → uarField w = uar

/-- A queue of the pool, the context word that the device gets for it, and the index of its UAR
page. -/
def Told (l : Lens (MLX5_Context δ) (Q.State Ctx)) (ctx : MLX5_Context δ) (qo : PA.ElementPtr)
    (payload : Local) (q : Q.Queue) (w : Word) (uar : ℕ) : Prop :=
  ∃ d up u, ((queueEnv l).view ctx).queueAt qo = some d ∧ d.toQueue = q ∧ d.uarp = some up ∧
    ctx.uar_page_pool.heap.dataAt up = some u ∧ u.index = uar ∧ payload.word 5 = some w

/-- A size and its logarithm describe the same ring exactly when the size is a power of two with a
logarithm of at most 5 bits. -/
theorem sameRing_iff {q : Q.Queue} (hpos : 0 < q.size) (hhead : q.head = 0) (uar : ℕ) :
    SameRing q (logAndUar (Nat.log2 q.size) uar) uar ↔ ∃ n, n < 32 ∧ q.size = 2 ^ n := by
  constructor
  · intro h
    have hslots := h.slots
    rw [logSize_logAndUar] at hslots
    exact ⟨_, Nat.mod_lt _ (by decide), hslots.symm⟩
  · rintro ⟨n, hn, hsize⟩
    have hlog : Nat.log2 q.size = n := by
      rw [hsize, Nat.log2_two_pow]
    have hfield : logSize (logAndUar (Nat.log2 q.size) uar) = n := by
      rw [logSize_logAndUar, hlog]
      exact Nat.mod_eq_of_lt hn
    have hle : q.size ≤ 2 ^ 32 := by
      rw [hsize]
      exact Nat.pow_le_pow_right (by decide) (Nat.le_of_lt hn)
    exact {
      slots := by rw [hfield, hsize]
      slot := fun k => by
        unfold writerSlot
        rw [readerSlot_eq hle (by omega), hhead, Nat.zero_add, hfield, hsize]
      log_size := hfield.trans hlog.symm
      uar := fun hlt => (uarField_logAndUar _ _).trans (Nat.mod_eq_of_lt hlt) }

/-- What has been prepared tells the device about the queue. -/
theorem Prepared.told {header payload_length : ℕ} {payload : Local}
    (h : Prepared l header size ctx ctx' qo payload payload_length) :
    ∃ q w uar, Told l ctx' qo payload q w uar ∧ q.size = size ∧
      (SameRing q w uar ↔ ∃ n, n < 32 ∧ size = 2 ^ n) := by
  obtain ⟨d, up, u, hat, hsize, hhead, hup, hu, hword, -⟩ := h.queue
  have hpos : 0 < d.toQueue.size := Nat.lt_of_lt_of_eq h.size_pos hsize.symm
  have hiff := sameRing_iff hpos hhead u.index
  rw [hsize] at hiff
  exact ⟨d.toQueue, _, u.index, ⟨d, up, u, hat, rfl, hup, hu, rfl, hword⟩, hsize, hiff⟩

/-- For every queue that `create_eq` and `create_cq` accept, the driver and the device go around the
same ring exactly when its size is a power of two below `2 ^ 32`. -/
theorem sharesRing_iff_powerOfTwo (h : Sound ctx) (size : ℕ) :
    (∀ type irq_num eq payload payload_length ctx',
      prepareEq size type irq_num ctx = .ok (eq, payload, payload_length) ctx' →
      ∃ q w uar, Told eqLens ctx' eq payload q w uar ∧ q.size = size ∧
        (SameRing q w uar ↔ ∃ n, n < 32 ∧ size = 2 ^ n)) ∧
    (∀ phys eq_number cq payload payload_length ctx',
      prepareCq phys eq_number size ctx = .ok (cq, payload, payload_length) ctx' →
      ∃ q w uar, Told cqLens ctx' cq payload q w uar ∧ q.size = size ∧
        (SameRing q w uar ↔ ∃ n, n < 32 ∧ size = 2 ^ n)) := by
  constructor
  · intro type irq_num eq payload payload_length ctx' hres
    obtain ⟨-, hprep, -⟩ := (takes_prepareEq (still δ) h size type irq_num).1 _ _ hres
    exact hprep.told
  · intro phys eq_number cq payload payload_length ctx' hres
    obtain ⟨-, hprep, -⟩ := (takes_prepareCq (still δ) h phys eq_number size).1 _ _ hres
    exact hprep.told

/-- Queues of four and of three entries at the start. -/
theorem startQueues_sharesRing_iff :
    (∃ eq payload payload_length ctx' q w uar,
      prepareEq 4 0 0 startContext = .ok (eq, payload, payload_length) ctx' ∧
        Told eqLens ctx' eq payload q w uar ∧ q.size = 4 ∧
        (SameRing q w uar ↔ ∃ n, n < 32 ∧ 4 = 2 ^ n)) ∧
    ∃ cq payload payload_length ctx' q w uar,
      prepareCq 4096 0 3 startContext = .ok (cq, payload, payload_length) ctx' ∧
        Told cqLens ctx' cq payload q w uar ∧ q.size = 3 ∧
        (SameRing q w uar ↔ ∃ n, n < 32 ∧ 3 = 2 ^ n) := by
  constructor
  · obtain ⟨eq, payload, payload_length, ctx', hres, -⟩ :=
      prepareEq_start 4 0 0 (by decide)
    obtain ⟨q, w, uar, htold⟩ := (sharesRing_iff_powerOfTwo startContext_sound 4).1 _ _ _ _ _ _ hres
    exact ⟨eq, payload, payload_length, ctx', q, w, uar, hres, htold⟩
  · obtain ⟨cq, payload, payload_length, ctx', hres, -⟩ :=
      prepareCq_start 4096 0 3 (by decide) (by decide)
    obtain ⟨q, w, uar, htold⟩ := (sharesRing_iff_powerOfTwo startContext_sound 3).2 _ _ _ _ _ _ hres
    exact ⟨cq, payload, payload_length, ctx', q, w, uar, hres, htold⟩

/-- An event queue of three entries is accepted, and the device takes it for one of two: its third
entry goes to slot 0, and the driver looks for it in slot 2. -/
theorem threeEntries_not_sameRing :
    ∃ eq payload payload_length ctx' q w uar,
      prepareEq 3 0 0 startContext = .ok (eq, payload, payload_length) ctx' ∧
        Told eqLens ctx' eq payload q w uar ∧ q.size = 3 ∧ 2 ^ logSize w = 2 ∧
        readerSlot q 2 = 2 ∧ writerSlot w 2 = 0 ∧ ¬ SameRing q w uar := by
  obtain ⟨eq, payload, payload_length, ctx', hres, hprep⟩ :=
    prepareEq_start 3 0 0 (by decide)
  obtain ⟨d, up, u, hat, hsize, hhead, hup, hu, hword, -⟩ := hprep.queue
  have hlog : logSize (logAndUar (Nat.log2 3) u.index) = 1 := logSize_logAndUar _ _
  have hslot : readerSlot d.toQueue 2 = 2 := by
    rw [readerSlot_eq (by rw [hsize]; decide) (by rw [hhead, hsize]; decide), hhead, hsize]
  refine ⟨eq, payload, payload_length, ctx', d.toQueue, _, u.index, hres,
    ⟨d, up, u, hat, rfl, hup, hu, rfl, hword⟩, hsize, ?_, hslot, ?_, fun hsame => ?_⟩
  · rw [hlog]
    rfl
  · unfold writerSlot
    rw [hlog]
    rfl
  · have hslots := hsame.slots
    rw [hlog, hsize] at hslots
    cases hslots

end L4Rdma.Driver
