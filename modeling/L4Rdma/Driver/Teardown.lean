import L4Rdma.Driver.Model

/-!
# Destroying the event queues

The loop at the start of `teardown_hca` counts through the blocks of the pool of event queues as if
they were an array that begins at `start`. The blocks are separate objects in a list. So the loop
destroys each live queue once when there is at most one block, and leaves the first block when there
are more (`destroysEach_iff`).
-/

namespace L4Rdma.Driver

open Lib Device PA

variable {δ : Type} {ctx ctx' : MLX5_Context δ} {pre : Option BlockPtr} {l : List BlockPtr}
  {b : BlockPtr} {blk : Block Unit (Q.ED Event.EQ_CTX)} {e e' : ElementPtr} {id : Word} {i j : ℕ}

/-- The number of the queue at a place. -/
def idAt {Ctx : Type} (s : Q.State Ctx) (e : ElementPtr) : Option Word :=
  (s.heap.dataAt e).map fun ed => ed.id

/-- The index has each live queue of a pool, under the number that the device has given it. -/
def Indexed {Ctx : Type} (s : Q.State Ctx) (l : List BlockPtr) : Prop :=
  ∀ e id, UsedAt s l e → idAt s e = some id → s.pool.data.index id.toNat = some e

/-- The command that destroys an event queue. -/
def destroyCommand (id : Word) : CMD.Command where
  opcode := CMD.OPCODE.DESTROY_EQ.value
  op_mod := 0
  payload := [id, 0]
  output_length := 2

/-- The loop returns, and has destroyed each live queue once, and nothing else. -/
def DestroysEach (D : CMD.HCA δ) (ctx : MLX5_Context δ) (l : List BlockPtr) : Prop :=
  ∃ (ctx' : MLX5_Context δ) (ids : List Word),
    teardownEqs D ctx = .ok () ctx' ∧
      ctx'.hca.seen = ctx.hca.seen ++ ids.map destroyCommand ∧ ids.Nodup ∧
      ∀ id, id ∈ ids ↔
        ∃ e, UsedAt ctx.event_queue_pool l e ∧ idAt ctx.event_queue_pool e = some id

/-! ## One queue -/

/-- The number of an element of a block. -/
theorem idAt_of_block (hblk : ctx.event_queue_pool.heap.block b = some blk) :
    idAt ctx.event_queue_pool ⟨b, j⟩ = some (blk.start j).data.id := by
  rw [idAt, Heap.dataAt, Heap.elem_of_block hblk]
  rfl

/-- `destroy_eq` issues the command for a live queue. -/
theorem destroyEq_ok (D : CMD.HCA δ) (hD : ∀ d c, (D.exec d c).2.Ok)
    (hidle : CMD.Idle ctx.hca.args)
    (hindex : ctx.event_queue_pool.pool.data.index id.toNat = some e)
    (hblk : ctx.event_queue_pool.heap.block e.block = some blk)
    (hid : (blk.start e.index).data.id = id) :
    ∃ w, destroyEq D id ctx = .ok () { ctx with hca := w } ∧ CMD.Idle w.args ∧
      w.seen = ctx.hca.seen ++ [destroyCommand id] := by
  have hfits : CMD.Fits (Buf.ofList [id, 0]) 2 DESTROY_EQ_OUTPUT_LENGTH :=
    ⟨by norm_num, Nat.le_refl 2, by norm_num⟩
  obtain ⟨w, -, hseen, hidle', -, -, hissue⟩ := CMD.issue_cases D hidle hfits .DESTROY_EQ 0x0
  have hok := hissue.resolve_right fun h => h.1 (hD _ _)
  have hcommand : CMD.command .DESTROY_EQ 0x0 (Buf.ofList [id, 0]) 2 DESTROY_EQ_OUTPUT_LENGTH =
      destroyCommand id := rfl
  rw [hcommand] at hseen
  refine ⟨w, ?_, hidle', hseen⟩
  unfold destroyEq
  rw [get_bind, hindex]
  have hderef : eqLens.zoom (deref (some e.block)) ctx = .ok blk ctx :=
    Lens.zoom_of_ok (deref_of_block hblk)
  refine (bind_of_ok hderef).trans ?_
  rw [hid]
  exact bind_of_ok (Lens.zoom_of_ok hok)

/-! ## The first block -/

/-- The numbers of the live queues among the first `j` elements of a block. -/
def liveIds (blk : Block Unit (Q.ED Event.EQ_CTX)) (j : ℕ) : List Word :=
  ((List.range j).filter fun i => (blk.start i).used).map fun i => (blk.start i).data.id

/-- The numbers of one more queue. -/
theorem liveIds_succ (j : ℕ) : liveIds blk (j + 1) =
    liveIds blk j ++ if (blk.start j).used then [(blk.start j).data.id] else [] := by
  unfold liveIds
  rw [List.range_succ, List.filter_append, List.map_append]
  cases hu : (blk.start j).used <;> simp [hu]

/-- What the loop keeps: the pool stays as it was, and the queues in `ids` have been destroyed. -/
structure Torn (ctx ctx' : MLX5_Context δ) (ids : List Word) : Prop where
  pool : ctx'.event_queue_pool = ctx.event_queue_pool
  idle : CMD.Idle ctx'.hca.args
  seen : ctx'.hca.seen = ctx.hca.seen ++ ids.map destroyCommand

/-- One round destroys one queue, if it is live. -/
theorem teardownElement_ok (D : CMD.HCA δ) (hD : ∀ d c, (D.exec d c).2.Ok)
    (hrep : Rep ctx.event_queue_pool pre (b :: l)) (hindexed : Indexed ctx.event_queue_pool (b :: l))
    (hblk : ctx.event_queue_pool.heap.block b = some blk)
    (hj : j < ctx.event_queue_pool.pool.block_size) (h : Torn ctx ctx' (liveIds blk j)) :
    ∃ u ctx'', teardownElement D 0 j () ctx' = .ok u ctx'' ∧ Torn ctx ctx'' (liveIds blk (j + 1)) := by
  obtain ⟨hpool, hidle, hseen⟩ := h
  have hblk' : ctx'.event_queue_pool.heap.block b = some blk := hpool ▸ hblk
  -- The first block is the one that the pool starts with, and its elements are all in reach.
  have hstart : startAt 0 ctx' = .ok blk ctx' := by
    have hhead : ctx'.event_queue_pool.pool.start = some b := hpool ▸ hrep.start_eq
    have hderef : eqLens.zoom (deref (some b)) ctx' = .ok blk ctx' :=
      Lens.zoom_of_ok (deref_of_block hblk')
    unfold startAt
    rw [get_bind, hhead, bind_of_ok hderef]
    rfl
  unfold teardownElement
  rw [bind_of_ok hstart, liveIds_succ]
  by_cases hu : (blk.start j).used
  · -- The queue is in the index under its number.
    have hused : UsedAt ctx.event_queue_pool (b :: l) ⟨b, j⟩ :=
      ⟨List.mem_cons_self, hj, blk, hblk, hu⟩
    have hindex := hindexed ⟨b, j⟩ _ hused (idAt_of_block hblk)
    rw [← hpool] at hindex
    -- So it is found there, destroyed, and its command is the last one that the device has seen.
    have hdestroyed : ∃ w, destroyEq D (blk.start j).data.id ctx' = .ok () { ctx' with hca := w } ∧
        CMD.Idle w.args ∧
        w.seen = ctx'.hca.seen ++ [destroyCommand (blk.start j).data.id] :=
      destroyEq_ok D hD hidle hindex hblk' rfl
    obtain ⟨w, hdestroy, hidle', hseen'⟩ := hdestroyed
    rw [if_pos hu, if_pos hu]
    refine ⟨(), _, hdestroy, hpool, hidle', ?_⟩
    rw [List.map_append, ← List.append_assoc, ← hseen]
    exact hseen'
  · -- An element that is not used is left alone.
    rw [if_neg hu, if_neg hu, List.append_nil]
    exact ⟨(), ctx', rfl, hpool, hidle, hseen⟩

/-- The first round of the outer loop destroys the live queues of the first block. -/
theorem teardownBlock_ok (D : CMD.HCA δ) (hD : ∀ d c, (D.exec d c).2.Ok)
    (hrep : Rep ctx.event_queue_pool pre (b :: l)) (hindexed : Indexed ctx.event_queue_pool (b :: l))
    (hblk : ctx.event_queue_pool.heap.block b = some blk) (hidle : CMD.Idle ctx.hca.args) :
    ∃ u ctx', teardownBlock D 0 () ctx = .ok u ctx' ∧
      Torn ctx ctx' (liveIds blk ctx.event_queue_pool.pool.block_size) := by
  unfold teardownBlock
  rw [get_bind]
  refine forRange_ok (fun j _ ctx' => Torn ctx ctx' (liveIds blk j))
    ⟨rfl, hidle, (List.append_nil _).symm⟩ fun j u ctx' hj h => ?_
  exact teardownElement_ok D hD hrep hindexed hblk hj h

/-- The live queues of a pool of one block are those of the block. -/
theorem mem_liveIds (hblk : ctx.event_queue_pool.heap.block b = some blk) :
    id ∈ liveIds blk ctx.event_queue_pool.pool.block_size ↔
      ∃ e, UsedAt ctx.event_queue_pool [b] e ∧ idAt ctx.event_queue_pool e = some id := by
  unfold liveIds
  rw [List.mem_map]
  constructor
  · rintro ⟨j, hj, rfl⟩
    rw [List.mem_filter, List.mem_range] at hj
    exact ⟨⟨b, j⟩, ⟨List.mem_cons_self, hj.1, blk, hblk, hj.2⟩, idAt_of_block hblk⟩
  · rintro ⟨⟨c, j⟩, ⟨hc, hj, blk', hblk', hu⟩, hid⟩
    obtain rfl : c = b := List.mem_singleton.mp hc
    obtain rfl : blk = blk' := Option.some.inj (hblk.symm.trans hblk')
    rw [idAt_of_block hblk] at hid
    exact ⟨j, List.mem_filter.mpr ⟨List.mem_range.mpr hj, hu⟩, Option.some.inj hid⟩

/-- Different live queues have different numbers. -/
theorem nodup_liveIds (hindexed : Indexed ctx.event_queue_pool [b])
    (hblk : ctx.event_queue_pool.heap.block b = some blk) :
    (liveIds blk ctx.event_queue_pool.pool.block_size).Nodup := by
  unfold liveIds
  refine List.Nodup.map_on (fun i hi j hj heq => ?_) (List.nodup_range.filter _)
  rw [List.mem_filter, List.mem_range] at hi hj
  -- Two elements with one number would be at one place of the index.
  have hi' := hindexed ⟨b, i⟩ _ ⟨List.mem_cons_self, hi.1, blk, hblk, hi.2⟩ (idAt_of_block hblk)
  have hj' := hindexed ⟨b, j⟩ _ ⟨List.mem_cons_self, hj.1, blk, hblk, hj.2⟩ (idAt_of_block hblk)
  rw [heq, hj'] at hi'
  cases hi'
  rfl

/-! ## The whole loop -/

/-- The second round leaves the first block. -/
theorem teardownBlock_error (D : CMD.HCA δ) (hsize : 0 < ctx.event_queue_pool.pool.block_size)
    (hstart : ctx.event_queue_pool.pool.start = some b)
    (hblk : ctx.event_queue_pool.heap.block b = some blk) :
    teardownBlock D 1 () ctx = .error (.undefined .out_of_bounds) ctx := by
  have hderef : eqLens.zoom (deref (some b)) ctx = .ok blk ctx :=
    Lens.zoom_of_ok (deref_of_block hblk)
  have hread : startAt 1 ctx = .error (.undefined .out_of_bounds) ctx := by
    unfold startAt
    rw [get_bind, hstart, bind_of_ok hderef]
    rfl
  obtain ⟨n, hn⟩ := Nat.exists_eq_succ_of_ne_zero (Nat.ne_of_gt hsize)
  unfold teardownBlock
  rw [get_bind, hn, forRange, forFrom]
  exact bind_of_error (bind_of_error hread)

/-- The loop at the start of `teardown_hca` reads only elements of the pool and destroys each live
event queue once, exactly when the pool has at most one block. The blocks have no more elements than
the 32-bit counter of the loop can count. -/
theorem destroysEach_iff (D : CMD.HCA δ) (hD : ∀ d c, (D.exec d c).2.Ok) (ctx : MLX5_Context δ)
    (pre : Option BlockPtr) (l : List BlockPtr) (hrep : Rep ctx.event_queue_pool pre l)
    (hsize : 0 < ctx.event_queue_pool.pool.block_size ∧
      ctx.event_queue_pool.pool.block_size < 2 ^ 32)
    (hindexed : Indexed ctx.event_queue_pool l) (hidle : CMD.Idle ctx.hca.args) :
    DestroysEach D ctx l ↔ ctx.event_queue_pool.pool.block_count ≤ 1 := by
  have hcount := hrep.block_count
  unfold DestroysEach teardownEqs
  simp only [get_bind]
  match l, hrep, hindexed with
  -- Without blocks there is nothing to destroy.
  | [], hrep, hindexed =>
    rw [hcount]
    refine ⟨fun _ => Nat.zero_le 1, fun _ => ⟨ctx, [], rfl, (List.append_nil _).symm,
      List.nodup_nil, fun id => ⟨fun h => absurd h List.not_mem_nil, ?_⟩⟩⟩
    rintro ⟨e, hused, -⟩
    exact absurd hused.1 List.not_mem_nil
  -- With one block, the only round destroys the live queues of it, which are those of the pool.
  | [b], hrep, hindexed =>
    rw [hcount]
    refine ⟨fun _ => Nat.le_refl 1, fun _ => ?_⟩
    obtain ⟨blk, hblk⟩ := hrep.exist b List.mem_cons_self
    obtain ⟨u, ctx', hround, -, -, hseen⟩ := teardownBlock_ok D hD hrep hindexed hblk hidle
    exact ⟨ctx', _, bind_of_ok hround, hseen, nodup_liveIds hindexed hblk,
      fun id => mem_liveIds hblk⟩
  | b :: c :: l, hrep, hindexed =>
    -- The first round returns, and the second one does not.
    obtain ⟨blk, hblk⟩ := hrep.exist b List.mem_cons_self
    obtain ⟨u, ctx', hround, hpool, -, -⟩ := teardownBlock_ok D hD hrep hindexed hblk hidle
    have hstart : ctx'.event_queue_pool.pool.start = some b := hpool ▸ hrep.start_eq
    have hnext : teardownBlock D 1 () ctx' = .error (.undefined .out_of_bounds) ctx' :=
      teardownBlock_error D (hpool ▸ hsize.1) hstart (hpool ▸ hblk)
    rw [hcount]
    refine ⟨?_, fun hle => absurd hle (by simp)⟩
    rintro ⟨ctx'', ids, hok, -⟩
    have herr : forRange (b :: c :: l).length () (teardownBlock D) ctx =
        .error (.undefined .out_of_bounds) ctx' :=
      (bind_of_ok hround).trans (bind_of_error hnext)
    rw [herr] at hok
    cases hok

/-! ## Two blocks -/

/-- An event queue of four entries. -/
def fourEntries (id : Word) : Q.ED Event.EQ_CTX where
  start := 0
  size := 4
  head := 0
  dma_mem := ⟨0, 0⟩
  id := id
  uarp := none
  pas_list := ⟨1, fun _ => 0⟩
  q_ctx := ⟨0, 0⟩

/-- A block whose first element is used, by the queue with a number. -/
def oneQueue (id : Word) (b : BlockPtr) (next prev : Option BlockPtr) :
    Block Unit (Q.ED Event.EQ_CTX) where
  element_count := 1
  next := next
  prev := prev
  data := ()
  start i := ⟨decide (i = 0), fourEntries id, b⟩

/-- A pool in which all queues of the first block but one have been given back. -/
def twoBlocks : Q.State Event.EQ_CTX where
  world := ()
  pool := {
    max := 1024, size := 2, block_size := 64, block_count := 2,
    data := { page_entry_count := 64, index := fun id => if id < 2 then some ⟨id, 0⟩ else none },
    start := some 0, «end» := some 1 }
  heap := {
    block := fun b =>
      if b = 0 then some (oneQueue 0 0 (some 1) none)
      else if b = 1 then some (oneQueue 1 1 none (some 0)) else none,
    fresh := 2,
    uninit := fun _ => oneQueue 0 0 none none }

/-- One element of such a block is used. -/
theorem oneQueue_ok (id : Word) (b : BlockPtr) (next prev : Option BlockPtr) :
    BlockOk 64 b 1 (oneQueue id b next prev).start := by
  have hfirst : (Finset.range 64).filter (fun i => ((oneQueue id b next prev).start i).used) = {0} := by
    ext i
    simp [oneQueue]
  refine ⟨?_, fun _ _ => rfl⟩
  rw [usedCount, hfirst, Finset.card_singleton]

/-- This pool is well formed. -/
theorem twoBlocks_rep : Rep twoBlocks none [0, 1] where
  seg := ⟨rfl, rfl, rfl, rfl, rfl⟩
  last b hb := hb
  block_count := rfl
  exist b hb := by
    rcases List.mem_pair.mp hb with rfl | rfl
    · exact ⟨_, rfl⟩
    · exact ⟨_, rfl⟩
  unborn b hb := by
    have hzero : b ≠ 0 := Nat.ne_of_gt (Nat.lt_of_lt_of_le Nat.zero_lt_two hb)
    have hone : b ≠ 1 := Nat.ne_of_gt (Nat.lt_of_lt_of_le Nat.one_lt_two hb)
    simp [twoBlocks, hzero, hone]
  pre_nil _ := rfl
  ok b hb n d a h := by
    rcases List.mem_pair.mp hb with rfl | rfl
    · cases h
      exact oneQueue_ok 0 0 (some 1) none
    · cases h
      exact oneQueue_ok 1 1 none (some 0)
  size_eq := rfl
  size_le := by decide
  stale q hq := by cases hq

/-- The context with these queues. -/
def twoBlocksContext : MLX5_Context Unit :=
  { initContext () with event_queue_pool := twoBlocks }

/-- Its queues are found under their numbers. -/
theorem twoBlocks_indexed : Indexed twoBlocksContext.event_queue_pool [0, 1] := by
  rintro ⟨b, i⟩ id ⟨hb, -, blk, hblk, hu⟩ hid
  have hstart : idAt twoBlocksContext.event_queue_pool ⟨b, i⟩ = some (blk.start i).data.id :=
    idAt_of_block hblk
  rw [hid] at hstart
  cases hstart
  rcases List.mem_pair.mp hb with rfl | rfl
  · cases hblk
    obtain rfl : i = 0 := of_decide_eq_true hu
    rfl
  · cases hblk
    obtain rfl : i = 0 := of_decide_eq_true hu
    rfl

/-- The command arguments of this context are ready. -/
theorem twoBlocks_idle : CMD.Idle twoBlocksContext.hca.args :=
  CMD.freshArgs_idle (by norm_num) (by norm_num)

/-- The loop reads the block that is not behind the first one. -/
theorem twoBlocks_not_destroysEach :
    Rep twoBlocksContext.event_queue_pool none [0, 1] ∧
      Indexed twoBlocksContext.event_queue_pool [0, 1] ∧
      ¬ DestroysEach CMD.quiet twoBlocksContext [0, 1] := by
  refine ⟨twoBlocks_rep, twoBlocks_indexed, ?_⟩
  rintro ⟨ctx', ids, hok, -⟩
  -- The loop is run on these two blocks.
  have hstop : returned (teardownEqs CMD.quiet twoBlocksContext) = false := by decide +kernel
  rw [hok] at hstop
  cases hstop

/-- Two blocks are not destroyed, since they are not at most one. -/
theorem twoBlocks_destroysEach_iff : DestroysEach CMD.quiet twoBlocksContext [0, 1] ↔
    twoBlocksContext.event_queue_pool.pool.block_count ≤ 1 :=
  destroysEach_iff CMD.quiet (fun _ _ => ⟨rfl, rfl⟩) twoBlocksContext none [0, 1] twoBlocks_rep
    (by decide +kernel) twoBlocks_indexed twoBlocks_idle

end L4Rdma.Driver
