import L4Rdma.Queue
import L4Rdma.Lib.Run
import L4Rdma.Lib.Ring

/-!
# The event queue

`server/src/event.cc`. The device posts events into the slots of an event queue, one after the
other, and clears the ownership bit of the slot. The handler looks at the ownership bit of the slot
at the head, and reads the event there when the bit is clear.

The slots start out owned by the device (`initEq`), except for the last one, and a slot that has been
read is not given back to the device. So the handler reads each event once, and in order, exactly
as long as it looks at the last slot, and at any slot after the first round, only when there is an
event for it.
-/

namespace L4Rdma.Event

open Lib Device

/-! ## The functions of the driver -/

/-- `EQC_OWNERSHIP_MASK`. -/
def EQC_OWNERSHIP_MASK : Word := 0x00000001

/-- An array of seven words has an element 0, and so have the numerals of its indexes. -/
instance neZeroSeven : NeZero 7 := ⟨Nat.succ_ne_zero 6⟩

/-- The data of an event: `l4_uint32_t payload[7]`. -/
abbrev Payload : Type := Fin 7 → Word

/-- Event queue entry. -/
structure EQE where
  data : Payload
  ctrl : Word

/-- An event queue and its memory. -/
structure EQ where
  queue : Q.Queue
  entry : ℕ → EQE

/-- One round of the loop of `init_eq`. -/
def initEqe (i : ℕ) (_ : Unit) : Exec EQ Unit :=
  modify fun eq => { eq with
    entry := Function.update eq.entry i { eq.entry i with ctrl := iowrite32be 0x1 } }

/-- `init_eq`: sets the ownership bits to 1. -/
def initEq : Exec EQ Unit := do
  let eq ← get
  forRange ((eq.queue.size + 0xffffffffffffffff) % 2 ^ 64) () initEqe

/-- `eqe_owned_by_hw`. -/
def eqeOwnedByHw (eq : EQ) : Bool :=
  ioread32be (eq.entry eq.queue.head).ctrl &&& EQC_OWNERSHIP_MASK != 0

/-- `read_eqe`. -/
def readEqe : Exec EQ Payload := do
  let eq ← get
  let (slot, queue) := Q.enqueue eq.queue
  modify fun eq => { eq with queue := queue }
  return fun i => ioread32be ((eq.entry slot).data i)

/-! ## The device and the handler -/

/-- The queue, with what the device and the handler have done so far: the events posted, the events
read, and, for each slot, the number of the event that it holds. -/
structure World where
  eq : EQ
  posted : List Payload
  read : List (Option ℕ × Payload)
  holds : ℕ → Option ℕ

/-- What happens. -/
inductive Act
  /-- The device posts an event. -/
  | post (data : Payload)
  /-- The handler goes through its loop once. -/
  | handle

/-- Event number `k` is posted into slot `k mod size`: its data is written, and the ownership bit
cleared. -/
def World.post (w : World) (data : Payload) : World :=
  let slot := w.posted.length % w.eq.queue.size
  let eqe : EQE := {
    data := fun i => iowrite32be (data i)
    ctrl := iowrite32be (ioread32be (w.eq.entry slot).ctrl &&& ~~~ EQC_OWNERSHIP_MASK) }
  { w with
    eq := { w.eq with entry := Function.update w.eq.entry slot eqe }
    posted := w.posted ++ [data]
    holds := Function.update w.holds slot (some w.posted.length) }

/-- The handler reads an event if the slot at the head is not owned by the device. -/
def World.handle (w : World) : World :=
  if eqeOwnedByHw w.eq then w
  else match readEqe w.eq with
    | .ok payload eq =>
      { w with eq := eq, read := w.read ++ [(w.holds w.eq.queue.head, payload)] }
    | .error _ eq => { w with eq := eq }

/-- What an act does. -/
def World.next (w : World) : Act → World
  | .post data => w.post data
  | .handle => w.handle

/-- The device posts into a slot only when the event that the slot held before has been read. -/
def Act.Allowed (w : World) : Act → Prop
  | .post _ => ∀ j, w.holds (w.posted.length % w.eq.queue.size) = some j →
      ∃ payload, (some j, payload) ∈ w.read
  | .handle => True

/-- One act of a run. -/
def Step (w : World) (a : Act) (w' : World) : Prop := a.Allowed w ∧ w' = w.next a

/-- The memory of a new queue. -/
def zeroed : ℕ → EQE := fun _ => ⟨fun _ => 0, 0⟩

/-- The start: `initEq` has returned on zeroed memory. -/
structure Init (size : ℕ) (w : World) : Prop where
  eq : ∃ q : Q.Queue, q.size = size ∧ q.head = 0 ∧ initEq ⟨q, zeroed⟩ = .ok () w.eq
  posted : w.posted = []
  read : w.read = []
  holds : ∀ i, w.holds i = none

/-- Events with their numbers. -/
def numbered (l : List Payload) : List (Option ℕ × Payload) :=
  l.mapIdx fun k data => (some k, data)

/-- The events read are the first ones of those posted: none is read before it was posted, none
twice, and none is skipped. -/
def InOrder (w : World) : Prop := w.read <+: numbered w.posted

/-- When the handler comes to the last slot for the first time, and ever after, there is an event to
be read, and it has not read more events than the 32-bit head of a larger queue can count. -/
def Awaited (w : World) : Act → Prop
  | .post _ => True
  | .handle => (w.read.length + 1 < w.eq.queue.size ∨ w.read.length < w.posted.length) ∧
      (w.eq.queue.size ≤ 2 ^ 32 ∨ w.read.length < 2 ^ 32)

/-! ## The ownership marks -/

/-- Whether an entry is owned by the device. -/
def EQE.owned (eqe : EQE) : Bool := ioread32be eqe.ctrl &&& EQC_OWNERSHIP_MASK != 0

/-- `eqe_owned_by_hw` looks at the entry at the head. -/
theorem eqeOwnedByHw_eq (eq : EQ) : eqeOwnedByHw eq = (eq.entry eq.queue.head).owned := rfl

/-- The number of entries that `initEq` marks. -/
def markCount (size : ℕ) : ℕ := (size + 0xffffffffffffffff) % 2 ^ 64

/-- All entries of a queue but the last one, if there is one. -/
theorem lt_markCount {size : ℕ} (hpos : 0 < size) (hlt : size < 2 ^ 64) (i : ℕ) :
    i < markCount size ↔ i + 1 < size := by
  unfold markCount
  omega

/-- Entries of which the first ones are marked as owned by the device. -/
def marked (n : ℕ) (entry : ℕ → EQE) : ℕ → EQE := fun i =>
  if i < n then { entry i with ctrl := iowrite32be 0x1 } else entry i

/-- One round marks one entry. -/
theorem marked_succ (n : ℕ) (entry : ℕ → EQE) :
    Function.update (marked n entry) n { marked n entry n with ctrl := iowrite32be 0x1 } =
      marked (n + 1) entry := by
  funext i
  unfold marked
  by_cases hi : i = n
  · rw [hi, Function.update_self, if_neg (Nat.lt_irrefl n), if_pos (Nat.lt_succ_self n)]
  · rw [Function.update_of_ne hi]
    exact if_congr (by omega) rfl rfl

/-- `initEq` marks all entries but the last one. -/
theorem initEq_ok (eq : EQ) {n : ℕ} (hn : n = markCount eq.queue.size) :
    initEq eq = .ok () { eq with entry := marked n eq.entry } := by
  have hround : ∀ k (u : Unit) eq', k < n → eq' = { eq with entry := marked k eq.entry } →
      ∃ u' eq'', initEqe k u eq' = .ok u' eq'' ∧ eq'' = { eq with entry := marked (k + 1) eq.entry } := by
    intro k u eq' _ heq
    subst heq
    have hentry := marked_succ k eq.entry
    exact ⟨(), _, rfl, congrArg (fun entry => { eq with entry := entry }) hentry⟩
  -- Before round `k` the first `k` entries are marked.
  have hrounds := forRange_ok (n := n) (a := ()) (s := eq)
    (fun k _ eq' => eq' = { eq with entry := marked k eq.entry }) rfl hround
  obtain ⟨u, eq', hloop, rfl⟩ := hrounds
  rw [hn, markCount] at hloop
  unfold initEq
  rw [get_bind]
  rw [hn]
  exact hloop

/-- The first entries are owned by the device, and the others as before. -/
theorem owned_marked (n i : ℕ) (entry : ℕ → EQE) :
    (marked n entry i).owned = (decide (i < n) || (entry i).owned) := by
  unfold marked
  split_ifs with hi
  · rw [decide_eq_true hi, Bool.true_or]
    simp [EQE.owned, ioread32be, iowrite32be, EQC_OWNERSHIP_MASK]
  · rw [decide_eq_false hi, Bool.false_or]

/-- Marking entries leaves their data. -/
theorem data_marked (n i : ℕ) (entry : ℕ → EQE) : (marked n entry i).data = (entry i).data := by
  unfold marked
  split_ifs <;> rfl

/-- On zeroed memory it gives all entries but the last one to the device. -/
theorem initEq_spec {q : Q.Queue} {eq : EQ} (hpos : 1 ≤ q.size) (hlt : q.size < 2 ^ 64)
    (h : initEq ⟨q, zeroed⟩ = .ok () eq) :
    eq.queue = q ∧ ∀ i, (eq.entry i).data = (fun _ => 0) ∧
      (eq.entry i).owned = decide (i + 1 < q.size) := by
  have hbefore := lt_markCount hpos hlt
  generalize hn : markCount q.size = n at hbefore
  rw [initEq_ok ⟨q, zeroed⟩ hn.symm] at h
  cases h
  refine ⟨rfl, fun i => ⟨data_marked n i zeroed, ?_⟩⟩
  have hzero : (zeroed i).owned = false := (by decide : EQE.owned ⟨fun _ => 0, 0⟩ = false)
  rw [owned_marked, hzero, Bool.or_false]
  exact decide_eq_decide.mpr (hbefore i)

/-- Posting an event clears the mark of its slot. -/
theorem owned_and_not (data : Payload) (ctrl : Word) :
    EQE.owned ⟨data, iowrite32be (ctrl &&& ~~~ EQC_OWNERSHIP_MASK)⟩ = false := by
  have hzero : ctrl &&& ~~~ EQC_OWNERSHIP_MASK &&& EQC_OWNERSHIP_MASK = 0 := by
    rw [BitVec.and_assoc, show ~~~ EQC_OWNERSHIP_MASK &&& EQC_OWNERSHIP_MASK = 0#32 by decide,
      BitVec.and_zero]
    rfl
  simp [EQE.owned, ioread32be, iowrite32be, hzero]

/-! ## The invariant -/

/-- What a slot contains: the data, whether the device owns it, and the number of its event. -/
def World.slot (w : World) (i : ℕ) : Payload × Bool × Option ℕ :=
  ((w.eq.entry i).data, (w.eq.entry i).owned, w.holds i)

/-- What event number `k` leaves in its slot. -/
def posting (posted : List Payload) (k : ℕ) : Payload × Bool × Option ℕ :=
  (fun i => iowrite32be (posted[k]?.getD (fun _ => 0) i), false, some k)

/-- What a slot contains at the start. -/
def unposted (size i : ℕ) : Payload × Bool × Option ℕ :=
  (fun _ => 0, decide (i + 1 < size), none)

/-- The invariant of the runs whose events are awaited. -/
structure Inv (size : ℕ) (w : World) : Prop where
  size_eq : w.eq.queue.size = size
  head : w.eq.queue.head = w.read.length % min size (2 ^ 32)
  counter : size ≤ 2 ^ 32 ∨ w.read.length ≤ 2 ^ 32
  inOrder : InOrder w
  /-- The device is at most one round ahead. -/
  ahead : w.posted.length ≤ w.read.length + size
  slots : Filled size w.posted.length (posting w.posted) (unposted size) w.slot

variable {size : ℕ} {w : World}

/-- The start has the invariant. -/
theorem Init.inv (hpos : 1 ≤ size) (hlt : size < 2 ^ 64) (h : Init size w) : Inv size w := by
  obtain ⟨⟨q, rfl, hhead, hinit⟩, hposted, hread, hholds⟩ := h
  obtain ⟨hq, hentry⟩ := initEq_spec hpos hlt hinit
  have hslot : w.slot = unposted q.size := by
    funext i
    unfold World.slot unposted
    rw [(hentry i).1, (hentry i).2, hholds]
  refine ⟨by rw [hq], by rw [hq, hread, hhead]; exact (Nat.zero_mod _).symm, ?_, ?_, ?_, ?_⟩
  · exact .inr (by rw [hread]; exact Nat.zero_le _)
  · unfold InOrder
    rw [hread]
    exact List.nil_prefix
  · rw [hposted]
    exact Nat.zero_le _
  · rw [hposted, hslot]
    exact filled_zero _ _ _

/-- Events read in order are at most those posted. -/
theorem InOrder.length_le (h : InOrder w) : w.read.length ≤ w.posted.length := by
  have := List.IsPrefix.length_le h
  rwa [numbered, List.length_mapIdx] at this

/-- One more event is read in order exactly when it is the next one. -/
theorem inOrder_snoc_iff {read : List (Option ℕ × Payload)} {posted : List Payload}
    {x : Option ℕ × Payload} (h : read <+: numbered posted) :
    read ++ [x] <+: numbered posted ↔ ∃ h : read.length < posted.length,
      x = (some read.length, posted[read.length]) := by
  have hlen : (numbered posted).length = posted.length := List.length_mapIdx
  rw [List.prefix_iff_eq_take] at h
  constructor
  · intro hx
    have hlt := hx.length_le
    rw [List.length_append, List.length_singleton, hlen] at hlt
    refine ⟨by omega, ?_⟩
    have hget := hx.getElem (i := read.length) (by simp)
    simpa [numbered] using hget
  · rintro ⟨hlt, rfl⟩
    have hbound : read.length < (numbered posted).length := by rwa [hlen]
    have hnext : (numbered posted)[read.length] = (some read.length, posted[read.length]) := by
      simp [numbered]
    rw [← hnext, List.prefix_iff_eq_take, List.length_append, List.length_singleton,
      List.take_succ_eq_append_getElem (by omega), ← h]

/-- An event read in order has been read only if it comes before the next one. -/
theorem InOrder.lt_of_mem (h : InOrder w) {j : ℕ} {payload : Payload}
    (hmem : (some j, payload) ∈ w.read) : j < w.read.length := by
  obtain ⟨i, hi, hget⟩ := List.mem_iff_getElem.mp hmem
  have hnum := List.IsPrefix.getElem h hi
  rw [hget] at hnum
  simp only [numbered, List.getElem_mapIdx, Prod.mk.injEq, Option.some.injEq] at hnum
  omega

/-! ## One act -/

/-- The device posts the next event. -/
theorem Inv.post (h : Inv size w) (hpos : 1 ≤ size) {data : Payload}
    (hallowed : (Act.post data).Allowed w) : Inv size (w.post data) := by
  -- The slot held the event of the round before, which has been read.
  have hahead : w.posted.length + 1 ≤ w.read.length + size := by
    rcases Nat.lt_or_ge w.posted.length size with hlt | hge
    · omega
    · have hlast := h.slots.last (w.posted.length - size) (by omega) (by omega)
      have hmod : (w.posted.length - size) % size = w.posted.length % size := by
        rw [← Nat.mod_eq_sub_mod hge]
      have hholds : w.holds (w.posted.length % size) = some (w.posted.length - size) := by
        rw [← hmod]
        exact congrArg (fun x => x.2.2) hlast
      obtain ⟨payload, hmem⟩ := hallowed _ (by rw [h.size_eq]; exact hholds)
      have := h.inOrder.lt_of_mem hmem
      omega
  refine ⟨h.size_eq, h.head, h.counter, ?_, ?_, ?_⟩
  · -- What has been read is still the beginning of what has been posted.
    refine List.IsPrefix.trans h.inOrder ?_
    show numbered w.posted <+: numbered (w.posted ++ [data])
    unfold numbered
    rw [List.mapIdx_append]
    exact List.prefix_append _ _
  · show (w.posted ++ [data]).length ≤ _
    rw [List.length_append, List.length_singleton]
    exact hahead
  · -- The event is in the slot after the last one, and the other slots are those of before.
    show Filled size (w.posted ++ [data]).length _ _ _
    rw [List.length_append, List.length_singleton]
    refine h.slots.push (fun k hk => ?_) ?_ fun i hi => ?_
    · show posting (w.posted ++ [data]) k = _
      unfold posting
      rw [List.getElem?_append_left hk]
    · unfold World.slot World.post posting
      simp only [h.size_eq, Function.update_self, owned_and_not]
      rw [List.getElem?_append_right (Nat.le_refl _), Nat.sub_self]
      rfl
    · unfold World.slot World.post
      simp only [h.size_eq, Function.update_of_ne hi]

/-- The slot at the head, as long as the counter has not gone around. -/
theorem Inv.head_eq (h : Inv size w) (hcounter : size ≤ 2 ^ 32 ∨ w.read.length < 2 ^ 32) :
    w.eq.queue.head = w.read.length % size := by
  rw [h.head]
  rcases Nat.le_total size (2 ^ 32) with hle | hge
  · rw [Nat.min_eq_left hle]
  · rw [Nat.min_eq_right hge]
    rcases Nat.lt_or_ge w.read.length (2 ^ 32) with hlt | hge'
    · rw [Nat.mod_eq_of_lt hlt, Nat.mod_eq_of_lt (by omega)]
    · have : size = 2 ^ 32 := by omega
      rw [this]

/-- When the slot at the head is not owned by the device, its content is read. -/
theorem handle_of_not_owned (h : (w.slot w.eq.queue.head).2.1 = false) :
    w.handle.posted = w.posted ∧ w.handle.slot = w.slot ∧
      w.handle.eq.queue = (Q.enqueue w.eq.queue).2 ∧
      w.handle.read = w.read ++ [((w.slot w.eq.queue.head).2.2,
        fun i => ioread32be ((w.slot w.eq.queue.head).1 i))] := by
  have hnot : eqeOwnedByHw w.eq = false := h
  unfold World.handle
  rw [hnot]
  exact ⟨rfl, rfl, rfl, rfl⟩

/-- When it is, nothing happens. -/
theorem handle_of_owned (h : (w.slot w.eq.queue.head).2.1 = true) : w.handle = w := by
  have hyes : eqeOwnedByHw w.eq = true := h
  unfold World.handle
  rw [hyes]
  rfl

/-- Reading moves the head on. -/
theorem Inv.enqueue_head (h : Inv size w) (hpos : 1 ≤ size) :
    (Q.enqueue w.eq.queue).2.head = (w.read.length + 1) % min size (2 ^ 32) := by
  rcases Nat.lt_or_ge (2 ^ 32) size with hgt | hle
  · have hhead := h.head
    rw [Nat.min_eq_right (Nat.le_of_lt hgt)] at hhead ⊢
    rw [Q.enqueue_head_of_gt (by rw [h.size_eq]; exact hgt), hhead, Nat.mod_add_mod]
  · have hhead := h.head
    rw [Nat.min_eq_left hle] at hhead ⊢
    have hlt : w.eq.queue.head < w.eq.queue.size := by
      rw [hhead, h.size_eq]
      exact Nat.mod_lt _ hpos
    rw [Q.enqueue_head (by rw [h.size_eq]; exact hle) hlt, hhead, h.size_eq, Nat.mod_add_mod]

/-- The handler goes through its loop when the next event is awaited. -/
theorem Inv.handle (h : Inv size w) (hpos : 1 ≤ size) (hawait : Awaited w .handle) :
    Inv size w.handle := by
  obtain ⟨hevent, hcounter⟩ := hawait
  rw [h.size_eq] at hevent hcounter
  have hhead := h.head_eq hcounter
  -- The counter is right, so the head is the slot of the next event.
  have hle := h.inOrder.length_le
  rcases Nat.lt_or_ge w.read.length w.posted.length with hlt | hge
  · -- The slot holds the next event.
    have hslot := h.slots.last w.read.length hlt h.ahead
    rw [← hhead] at hslot
    obtain ⟨hposted, hslots, hqueue, hread⟩ := handle_of_not_owned (w := w) (by rw [hslot]; rfl)
    -- It is read, and the head moves on.
    have hlen : w.handle.read.length = w.read.length + 1 := by rw [hread]; simp
    refine ⟨?_, ?_, ?_, ?_, ?_, ?_⟩
    · rw [hqueue]
      exact h.size_eq
    · rw [hqueue, hlen]
      exact h.enqueue_head hpos
    · rw [hlen]
      omega
    · -- It is the event that was posted after those that have been read.
      unfold InOrder
      rw [hposted, hread, hslot]
      refine (inOrder_snoc_iff h.inOrder).mpr ⟨hlt, ?_⟩
      unfold posting
      simp [List.getElem?_eq_getElem hlt]
    · have hahead := h.ahead
      rw [hposted, hlen]
      omega
    · rw [hposted, hslots]
      exact h.slots
  · -- There is no event, and the slot is one that `initEq` has given to the device.
    have hslot := h.slots.rest w.read.length (by omega) hge
    have hmod : w.read.length % size = w.read.length := Nat.mod_eq_of_lt (by omega)
    rw [← hmod, ← hhead] at hslot
    -- So the loop ends without reading.
    have howned : (w.slot w.eq.queue.head).2.1 = true := by
      rw [hslot, hhead, hmod]
      exact decide_eq_true (by omega)
    rw [handle_of_owned howned]
    exact h

/-- A slot that the device does not own is read, in order only if it holds the next event. -/
theorem not_inOrder_handle (h : InOrder w) (howned : (w.slot w.eq.queue.head).2.1 = false)
    (hnext : w.posted.length ≤ w.read.length ∨
      (w.slot w.eq.queue.head).2.2 ≠ some w.read.length) : ¬ InOrder w.handle := by
  obtain ⟨hposted, -, -, hread⟩ := handle_of_not_owned howned
  unfold InOrder
  rw [hposted, hread, inOrder_snoc_iff h]
  rintro ⟨hlt, heq⟩
  rcases hnext with hge | hne
  · omega
  · exact hne (congrArg Prod.fst heq)

/-- The handler goes through its loop when no event is awaited: it reads one all the same. -/
theorem Inv.not_inOrder (h : Inv size w) (hpos : 1 ≤ size) (hawait : ¬ Awaited w .handle) :
    ¬ InOrder w.handle := by
  -- Either the counter is still right, and all events have been read, or it has gone around.
  have hle := h.inOrder.length_le
  have hahead := h.ahead
  unfold Awaited at hawait
  rw [h.size_eq, Classical.not_and_iff_not_or_not] at hawait
  by_cases hcounter : size ≤ 2 ^ 32 ∨ w.read.length < 2 ^ 32
  · -- All events have been read, and the slot is the last one or has been read before.
    have hhead := h.head_eq hcounter
    have hall : w.read.length = w.posted.length ∧ size ≤ w.read.length + 1 := by omega
    refine not_inOrder_handle h.inOrder ?_ (.inl (by omega))
    rw [hhead]
    rcases Nat.lt_or_ge w.read.length size with hlt | hge
    · -- The slot is the last one, which `init_eq` has not given to the device.
      rw [Nat.mod_eq_of_lt hlt, h.slots.rest _ hlt (by omega)]
      exact decide_eq_false (by omega)
    · -- The slot holds an event of the round before.
      have hlast := h.slots.last (w.read.length - size) (by omega) (by omega)
      rw [← Nat.mod_eq_sub_mod hge] at hlast
      rw [hlast]
      rfl
  · -- The counter has gone around and is back at the first slot.
    have hread : w.read.length = 2 ^ 32 := by
      have := h.counter
      omega
    have hhead : w.eq.queue.head = 0 := by
      rw [h.head, hread, Nat.min_eq_right (by omega), Nat.mod_self]
    rcases Nat.lt_or_ge size w.posted.length with hm | hm
    · -- The first slot holds the event with the number `size`, which was to be read long ago.
      have hlast := h.slots.last size hm (by omega)
      rw [Nat.mod_self] at hlast
      refine not_inOrder_handle h.inOrder (by rw [hhead, hlast]; rfl) (.inr ?_)
      rw [hhead, hlast, hread]
      simp only [posting, ne_eq, Option.some.injEq]
      omega
    · -- The first slot still holds the first event.
      have hlast := h.slots.last 0 (by omega) (by omega)
      rw [Nat.zero_mod] at hlast
      refine not_inOrder_handle h.inOrder (by rw [hhead, hlast]; rfl) (.inr ?_)
      rw [hhead, hlast, hread]
      simp [posting]

/-! ## Whole runs -/

/-- The handler reads the events in order, throughout a run, exactly when each event is awaited. -/
theorem inOrder_iff_awaited {size : ℕ} {w₀ w : World} {acts : List (World × Act)}
    (hpos : 1 ≤ size) (hlt : size < 2 ^ 64) (hinit : Init size w₀) (hrun : Run Step w₀ acts w) :
    Throughout InOrder acts w ↔ AllSteps Awaited acts := by
  refine Run.all_iff (hinit.inv hpos hlt) (fun _ hI => hI.inOrder) ?_ ?_ hrun
  · rintro w a w' hI ⟨hallowed, rfl⟩ hawait
    cases a with
    | post data => exact hI.post hpos hallowed
    | handle => exact hI.handle hpos hawait
  · rintro w a w' hI ⟨hallowed, rfl⟩ hawait
    cases a with
    | post data => exact absurd trivial hawait
    | handle => exact hI.not_inOrder hpos hawait

/-! ## A queue of four entries -/

/-- The queue of page requests, which has four entries, after `initEq`. -/
def fourEntries : World where
  eq := match initEq ⟨⟨0, 4, 0, ⟨0, 0⟩⟩, zeroed⟩ with
    | .ok _ eq => eq
    | .error _ eq => eq
  posted := []
  read := []
  holds := fun _ => none

/-- This queue is initialized for its size. -/
theorem fourEntries_init : Init 4 fourEntries :=
  ⟨⟨⟨0, 4, 0, ⟨0, 0⟩⟩, rfl, rfl, rfl⟩, rfl, rfl, fun _ => rfl⟩

/-- Three events are posted and read, and the handler looks for a fourth one. -/
def fourthLook : List Act :=
  List.replicate 3 (.post fun _ => 1) ++ List.replicate 4 .handle

/-- These acts with the states they are done in. -/
def fourthLookSteps : List (World × Act) := trace World.next fourEntries fourthLook

/-- Where they lead. -/
def afterFourthLook : World := fourthLook.foldl World.next fourEntries

/-- No event is posted into a slot that holds one. -/
def vacant (w : World) : Act → Bool
  | .post _ => (w.holds (w.posted.length % w.eq.queue.size)).isNone
  | .handle => true

/-- An event may be posted into a slot that holds none. -/
theorem allowed_of_vacant {w : World} {a : Act} (h : vacant w a = true) : a.Allowed w := by
  cases a with
  | handle => trivial
  | post data =>
    intro j hj
    unfold vacant at h
    rw [hj] at h
    cases h

/-- These acts are a run. -/
theorem fourthLook_run : Run Step fourEntries fourthLookSteps afterFourthLook := by
  have hvacant : ∀ p ∈ fourthLookSteps, vacant p.1 p.2 = true := by decide +kernel
  exact run_trace fun p hp => ⟨allowed_of_vacant (hvacant p hp), rfl⟩

/-- Not all of these events are awaited. -/
theorem fourthLook_iff :
    Throughout InOrder fourthLookSteps afterFourthLook ↔ AllSteps Awaited fourthLookSteps :=
  inOrder_iff_awaited (by decide) (by decide) fourEntries_init fourthLook_run

/-- The fourth look reads an event that has not been posted. -/
theorem fourthLook_not_inOrder :
    fourthLookSteps.map Prod.snd = fourthLook ∧
      Run Step fourEntries fourthLookSteps afterFourthLook ∧
      ¬ Throughout InOrder fourthLookSteps afterFourthLook := by
  have hread : afterFourthLook.read.length = 4 := by decide +kernel
  have hposted : afterFourthLook.posted.length = 3 := by decide +kernel
  have hnot : ¬ InOrder afterFourthLook := fun h => by
    have hle := h.length_le
    omega
  refine ⟨?_, fourthLook_run, not_throughout hnot⟩
  rw [fourthLookSteps, trace_events]

end L4Rdma.Event
