import L4Rdma.Pool.Run

/-!
# UAR pages that are live at the same time

`UAR::alloc_block` counts the pages of each block from the base page of the pool. The pages of one
block are different pages of the device, but the pages of a second block are those of the first one
again. So different live pages are different pages of the device exactly as long as one block is
enough.
-/

namespace L4Rdma.UAR

open Lib PA

variable {W : Type}

/-- The pool as `Driver::alloc_uar` sets it up. -/
def initPool (base : Uar) («end» : Option BlockPtr) : Pool PD where
  max := 1024
  size := 0
  block_size := 64
  block_count := 0
  data := ⟨base⟩
  start := none
  «end» := «end»

/-- The state of a pool of UAR pages. -/
abbrev State (W : Type) : Type := PA.State W PD Unit Uar

/-- The state after `Driver::alloc_uar`. -/
structure Init (s : State W) : Prop where
  pool : ∃ base «end», s.pool = initPool base «end»
  heap : ∀ b, s.heap.block b = none

/-- Different live pages have different indices and addresses. -/
def Distinct : Config W PD Unit Uar → Prop
  | .running s live => ∀ e ∈ live, ∀ e' ∈ live, e ≠ e' → ∀ u u',
      s.heap.dataAt e = some u → s.heap.dataAt e' = some u' →
        u.index ≠ u'.index ∧ u.addr ≠ u'.addr
  | .stopped _ => False

/-- A page is allocated only while fewer pages are live than a block has. -/
def BelowBlock : Config W PD Unit Uar → Call → Prop
  | .running s _, .alloc => s.pool.size < s.pool.block_size
  | _, _ => True

/-- The pages of a block are different pages of the device. -/
theorem page_ne {base : Uar} {i j : ℕ} (hi : i < 64) (hj : j < 64) (hne : i ≠ j) :
    (page base i).index ≠ (page base j).index ∧ (page base i).addr ≠ (page base j).addr := by
  unfold page
  constructor
  · show (base.index + i) % 2 ^ 32 ≠ (base.index + j) % 2 ^ 32
    omega
  · show (base.addr + i * 4096) % 2 ^ 64 ≠ (base.addr + j * 4096) % 2 ^ 64
    omega

/-- The invariant of the runs that stay below a block: there is at most one block, its pages are
those counted from the base, and the live pages are the used ones. -/
def Inv (base : Uar) : Config W PD Unit Uar → Prop
  | .running s live => ∃ l, Rep s none l ∧ l.length ≤ 1 ∧ s.pool.block_size = 64 ∧
      s.pool.max = 1024 ∧ s.pool.data = ⟨base⟩ ∧ live.Nodup ∧ (∀ e, e ∈ live ↔ UsedAt s l e) ∧
      ∀ b ∈ l, ∀ i, i < 64 → s.heap.dataAt ⟨b, i⟩ = some (page base i)
  | .stopped _ => False

variable {s : State W} {base : Uar} {live : List ElementPtr}

/-- A page of the pool and what it stands for. -/
theorem Inv.distinct {c : Config W PD Unit Uar} (h : Inv base c) : Distinct c := by
  cases c with
  | stopped u => exact h
  | running s live =>
    obtain ⟨l, -, hone, hbs, -, -, -, hlive, hdata⟩ := h
    intro e he e' he' hne u u' hu hu'
    obtain ⟨hmem, hi, -⟩ := (hlive e).mp he
    obtain ⟨hmem', hi', -⟩ := (hlive e').mp he'
    rw [hbs] at hi hi'
    -- Both pages are in the one block, at different places.
    have hblock : e.block = e'.block := by
      match l, hone with
      | [b], _ => rw [List.mem_singleton.mp hmem, List.mem_singleton.mp hmem']
    have hindex : e.index ≠ e'.index := fun hij => hne (by
      obtain ⟨b, i⟩ := e
      obtain ⟨b', i'⟩ := e'
      simp_all)
    have hue : some (page base e.index) = some u := (hdata _ hmem _ hi).symm.trans hu
    have hue' : some (page base e'.index) = some u' := (hdata _ hmem' _ hi').symm.trans hu'
    cases hue
    cases hue'
    exact page_ne hi hi' hindex

/-- The pool starts with the invariant. -/
theorem Init.inv (h : Init s) (hbase : s.pool.data = ⟨base⟩) : Inv base (.running s []) := by
  obtain ⟨base', «end», hpool⟩ := h.pool
  have hempty : Empty s := by
    constructor <;> simp [hpool, initPool, h.heap]
  refine ⟨[], hempty.rep, by simp, by rw [hpool]; rfl, by rw [hpool]; rfl, hbase, List.nodup_nil,
    fun e => ?_, fun b hb => absurd hb List.not_mem_nil⟩
  constructor
  · exact fun he => absurd he List.not_mem_nil
  · exact fun hu => absurd hu.1 List.not_mem_nil

/-- The setup of a block always succeeds. -/
theorem setup_eq (hpd : s.pool.data = ⟨base⟩) :
    (kind W).setup s.pool s.world = .ok ((), fun i _ => page base i) s.world := by
  show EStateM.Result.ok ((), fun i _ => page s.pool.data.base i) s.world = _
  rw [hpd]

/-- In a pool with one block `size` is the number of the used pages of this block. -/
theorem size_eq_usedCount {b : BlockPtr} {blk : Block Unit Uar} (h : Rep s none [b])
    (hblk : s.heap.block b = some blk) : s.pool.size = usedCount s.pool.block_size blk.start := by
  rw [h.size_eq, List.map_singleton, List.sum_singleton, Heap.count_of_block hblk,
    (h.blockOk (by simp) hblk).count_eq]

/-- The pages of the blocks after an allocation are counted from the base. -/
theorem dataAt_taken {s' : State W} {l l' : List BlockPtr} {e : ElementPtr}
    (h : Taken (kind W) s s' none l l' e) (hbs : s.pool.block_size = 64)
    (hpd : s.pool.data = ⟨base⟩)
    (hdata : ∀ b ∈ l, ∀ i, i < 64 → s.heap.dataAt ⟨b, i⟩ = some (page base i)) :
    ∀ b ∈ l', ∀ i, i < 64 → s'.heap.dataAt ⟨b, i⟩ = some (page base i) := by
  have hold : ∀ b ∈ l, ∀ i, i < 64 → s'.heap.dataAt ⟨b, i⟩ = some (page base i) :=
    fun b hb i hi => (h.data ⟨b, i⟩ hb).trans (hdata b hb i hi)
  intro b hb i hi
  rcases h.blocks with ⟨rfl, -⟩ | ⟨hl', -, -, bd, ed, hset, hnew⟩
  · exact hold b hb i hi
  · rw [hl', List.mem_append, List.mem_singleton] at hb
    rcases hb with hb | rfl
    · exact hold b hb i hi
    · obtain ⟨d, hd⟩ := hnew i (by rw [hbs]; exact hi)
      rw [setup_eq hpd] at hset
      simp only [EStateM.Result.ok.injEq, Prod.mk.injEq] at hset
      obtain ⟨⟨-, rfl⟩, -⟩ := hset
      exact hd

/-- Below a block, an allocation stays in the one block. -/
theorem Inv.alloc (h : Inv base (.running s live)) (hlt : s.pool.size < s.pool.block_size) :
    Inv base ((Config.running s live).next (kind W) .alloc) := by
  obtain ⟨l, hrep, hone, hbs, hmax, hpd, hnodup, hlive, hdata⟩ := h
  show Inv base (.afterAlloc live (allocPage (kind W) s))
  rcases allocPage_spec (kind W) hrep (by omega) with ⟨hfull, -⟩ | ⟨-, e, s', l', hres, ht⟩ |
    ⟨-, m, s', hres, -, -, -, -, hset⟩
  · omega
  · rw [hres]
    refine ⟨l', ht.rep, ?_, ht.block_size.trans hbs, ht.max.trans hmax, ht.pool_data.trans hpd,
      List.nodup_cons.mpr ⟨fun he => ht.unused ((hlive e).mp he), hnodup⟩, fun e' => ?_,
      dataAt_taken ht hbs hpd hdata⟩
    · rcases ht.blocks with ⟨rfl, -⟩ | ⟨rfl, -, hfull, -⟩
      · exact hone
      · -- The one block would have to be full.
        match l, hone with
        | [], _ => exact Nat.le_refl 1
        | [b], _ =>
          obtain ⟨blk, hblk, hnlt⟩ := hfull b (by simp)
          rw [(hrep.blockOk (by simp) hblk).count_eq, ← size_eq_usedCount hrep hblk] at hnlt
          exact absurd hlt hnlt
    · rw [List.mem_cons, ht.used, hlive, or_comm]
  · rw [setup_eq hpd] at hset
    cases hset

/-- Freeing a page keeps the invariant. -/
theorem Inv.free {e : ElementPtr} (h : Inv base (.running s live)) (he : e ∈ live) :
    Inv base ((Config.running s live).next (kind W) (.free e)) := by
  obtain ⟨l, hrep, hone, hbs, hmax, hpd, hnodup, hlive, hdata⟩ := h
  have hused := (hlive e).mp he
  obtain ⟨blk, hblk⟩ := hrep.exist e.block hused.1
  -- No block follows the one block.
  have hhead : (Call.free e).KeepsHead (.running s live) := by
    rintro ⟨-, blk', n, hblk', -, hn⟩
    match l, hone with
    | [b], _ =>
      obtain rfl : e.block = b := List.mem_singleton.mp hused.1
      have hnext : blk'.next = none := Rep.next_eq (show Rep s none ([] ++ e.block :: []) from hrep) hblk'
      rw [hn] at hnext
      cases hnext
  obtain ⟨s', l', hnext, hrep', hg⟩ := next_free (kind W) hrep hused hhead
  rw [hnext]
  refine ⟨l', hrep', ?_, hg.block_size.trans hbs, hg.max.trans hmax, hg.pool_data.trans hpd,
    hnodup.erase e, fun e' => ?_, fun b hb i hi => ?_⟩
  · exact (hrep'.nodup.subperm hg.sub).length_le.trans hone
  · rw [hnodup.mem_erase_iff, hg.used, hlive, and_comm]
  · exact (hg.data ⟨b, i⟩ hb).trans (hdata b (hg.sub hb) i hi)

/-- When the one block is full, the next page is one that is live already. -/
theorem Inv.not_distinct (h : Inv base (.running s live)) (hge : ¬ s.pool.size < s.pool.block_size) :
    ¬ Distinct ((Config.running s live).next (kind W) .alloc) := by
  obtain ⟨l, hrep, hone, hbs, hmax, hpd, hnodup, hlive, hdata⟩ := h
  match l, hone with
  | [], _ =>
    have hsize : s.pool.size = 0 := hrep.size_eq
    omega
  | [b], _ =>
    obtain ⟨blk, hblk⟩ := hrep.exist b (by simp)
    have hsize := size_eq_usedCount hrep hblk
    have hle := usedCount_le s.pool.block_size blk.start
    have hall := usedCount_eq_iff.mp (show usedCount s.pool.block_size blk.start =
      s.pool.block_size by omega)
    -- All elements of the block are used.
    have hpages : ∀ i, i < s.pool.block_size → UsedAt s [b] ⟨b, i⟩ := fun i hi =>
      ⟨by simp, hi, blk, hblk, hall i hi⟩
    show ¬ Distinct (.afterAlloc live (allocPage (kind W) s))
    rcases allocPage_spec (kind W) hrep (by omega) with ⟨hfull, -⟩ | ⟨-, e, s', l', hres, ht⟩ |
      ⟨-, m, s', hres, -, -, -, -, hset⟩
    · omega
    · -- So the next page is in a new block, at an index that the old block has as well.
      rw [hres]
      -- The new page is not in the old block, where it would have been used already.
      have hi : e.index < 64 := by
        have := ((ht.used e).mpr (.inr rfl)).2.1
        rwa [ht.block_size, hbs] at this
      have hne : e ≠ ⟨b, e.index⟩ := fun he => ht.unused (he ▸ hpages e.index (by omega))
      have hdata' := dataAt_taken ht hbs hpd hdata
      have hmem : e.block ∈ l' := ((ht.used e).mpr (.inr rfl)).1
      have hold : UsedAt s' l' ⟨b, e.index⟩ := (ht.used _).mpr (.inl (hpages e.index (by omega)))
      intro hdist
      refine (hdist e List.mem_cons_self ⟨b, e.index⟩ (List.mem_cons_of_mem _ ?_) hne _ _
        (hdata' _ hmem _ hi) (hdata' _ hold.1 _ hi)).1 rfl
      exact (hlive _).mpr (hpages e.index (by omega))
    · rw [setup_eq hpd] at hset
      cases hset

/-- Different pages that are live at the same time have different indices and addresses, throughout
a run, exactly when each page is allocated while fewer pages are live than a block has. -/
theorem distinct_iff_belowBlock (h : Init s) {calls : List (Config W PD Unit Uar × Call)}
    {c : Config W PD Unit Uar} (hrun : Run (Step (kind W)) (.running s []) calls c) :
    Throughout Distinct calls c ↔ AllSteps BelowBlock calls := by
  refine Run.all_iff (h.inv rfl) (fun _ hI => hI.distinct) ?_ ?_ hrun
  · rintro c call c' hI ⟨hallowed, rfl⟩ hbelow
    cases c with
    | running s live =>
      cases call with
      | alloc => exact hI.alloc hbelow
      | free e => exact hI.free hallowed
    | stopped u => exact hI
  · rintro c call c' hI ⟨hallowed, rfl⟩ hbelow
    cases c with
    | running s live =>
      cases call with
      | alloc => exact hI.not_distinct hbelow
      | free e => exact absurd trivial hbelow
    | stopped u => exact absurd trivial hbelow

/-! ## A run with more pages than a block has -/

/-- The pool as it is set up when the device allocated UAR 0. -/
def freshPool : State Unit where
  world := ()
  pool := initPool ⟨0, 0⟩ none
  heap := {
    block := fun _ => none, fresh := 0,
    uninit := fun _ => ⟨0, none, none, (), fun _ => ⟨false, ⟨0, 0⟩, 0⟩⟩ }

/-- This pool is one at the start. -/
theorem freshPool_init : Init freshPool := ⟨⟨_, _, rfl⟩, fun _ => rfl⟩

/-- One page more than a block has. -/
def allocs : List Call := List.replicate 65 .alloc

/-- These calls with the states they are made in. -/
def allocSteps : List (Config Unit PD Unit Uar × Call) :=
  trace (Config.next (kind Unit)) (.running freshPool []) allocs

/-- Where they lead. -/
def afterAllocs : Config Unit PD Unit Uar :=
  allocs.foldl (Config.next (kind Unit)) (.running freshPool [])

/-- These calls are a run. -/
theorem allocs_run :
    Run (Step (kind Unit)) (.running freshPool []) allocSteps afterAllocs := by
  have hallowed : ∀ p ∈ allocSteps, p.2.Allowed p.1 := by decide +kernel
  exact run_trace fun p hp => ⟨hallowed p hp, rfl⟩

/-- Not all of these pages are allocated below a block. -/
theorem allocs_iff : Throughout Distinct allocSteps afterAllocs ↔ AllSteps BelowBlock allocSteps :=
  distinct_iff_belowBlock freshPool_init allocs_run

/-- Whether two pages are live and have the same index. -/
def sameIndex (e e' : ElementPtr) : Config Unit PD Unit Uar → Bool
  | .running s live =>
    match s.heap.dataAt e, s.heap.dataAt e' with
    | some u, some u' => e ∈ live && e' ∈ live && u.index == u'.index
    | _, _ => false
  | .stopped _ => false

/-- Two different pages with one index are not distinct. -/
theorem not_distinct_of_sameIndex {c : Config Unit PD Unit Uar} {e e' : ElementPtr} (hne : e ≠ e')
    (h : sameIndex e e' c = true) : ¬ Distinct c := by
  unfold sameIndex at h
  split at h
  · split at h
    · rename_i u u' hu hu'
      simp only [Bool.and_eq_true, decide_eq_true_eq, beq_iff_eq] at h
      exact fun hd => (hd e h.1.1 e' h.1.2 hne u u' hu hu').1 h.2
    · cases h
  · cases h

/-- The last of them gets the index of the first one. -/
theorem allocs_not_distinct :
    allocSteps.map Prod.snd = allocs ∧
      Run (Step (kind Unit)) (.running freshPool []) allocSteps afterAllocs ∧
      ¬ Throughout Distinct allocSteps afterAllocs := by
  have hsame : sameIndex ⟨0, 0⟩ ⟨1, 0⟩ afterAllocs = true := by decide +kernel
  have hnot : ¬ Distinct afterAllocs := not_distinct_of_sameIndex (by decide) hsame
  refine ⟨?_, allocs_run, not_throughout hnot⟩
  rw [allocSteps, trace_events]

end L4Rdma.UAR
