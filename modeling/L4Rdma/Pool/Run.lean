import L4Rdma.Pool.Spec
import L4Rdma.Pool.Kinds
import L4Rdma.Lib.Run

/-!
# Runs of a pool

The user of a pool allocates elements and frees those that it holds, in any order. A run is a
sequence of such calls on a pool that starts empty. The pool is well formed after every call of a
run exactly when no call empties the first block of the list while another block follows: removing
the first block leaves a link to it in the block that follows.
-/

namespace L4Rdma.PA

open Lib

variable {W PD BD ED : Type} {k : Kind W PD BD ED}

/-- A call of the user of a pool. -/
inductive Call
  | alloc
  | free (e : ElementPtr)

/-- Where a run stands: the pool, and the elements that the user holds, or how the last call ended
when it did something undefined. -/
inductive Config (W PD BD ED : Type)
  | running (s : State W PD BD ED) (live : List ElementPtr)
  | stopped (u : Stop)

/-- The user frees only elements that it holds. -/
def Call.Allowed : Config W PD BD ED → Call → Prop
  | .running _ _, .alloc => True
  | .running _ live, .free e => e ∈ live
  | .stopped _, _ => False

/-- Whether a call is allowed can be evaluated. -/
instance (c : Config W PD BD ED) (call : Call) : Decidable (call.Allowed c) :=
  match c, call with
  | .running _ _, .alloc => .isTrue trivial
  | .running _ live, .free e => inferInstanceAs (Decidable (e ∈ live))
  | .stopped _, _ => .isFalse id

/-- Where a run stands after an allocation. One that ends in an exception hands out no element. -/
def Config.afterAlloc (live : List ElementPtr) :
    EStateM.Result Stop (State W PD BD ED) (Option ElementPtr) → Config W PD BD ED
  | .ok (some e) s => .running s (e :: live)
  | .ok none s => .running s live
  | .error (.thrown _) s => .running s live
  | .error u _ => .stopped u

/-- Where a run stands after an element was freed. The element is given away also when the call ends
in an exception. -/
def Config.afterFree (live : List ElementPtr) (e : ElementPtr) :
    EStateM.Result Stop (State W PD BD ED) Unit → Config W PD BD ED
  | .ok () s => .running s (live.erase e)
  | .error (.thrown _) s => .running s (live.erase e)
  | .error u _ => .stopped u

/-- What a call does. -/
def Config.next (k : Kind W PD BD ED) : Config W PD BD ED → Call → Config W PD BD ED
  | .running s live, .alloc => .afterAlloc live (allocPage k s)
  | .running s live, .free e => .afterFree live e (freePage k e s)
  | .stopped u, _ => .stopped u

/-- One call of a run. -/
def Step (k : Kind W PD BD ED) (c : Config W PD BD ED) (call : Call) (c' : Config W PD BD ED) :
    Prop :=
  call.Allowed c ∧ c' = c.next k call

/-- The pool as it is set up: nothing in it, and no block allocated. -/
structure Empty (s : State W PD BD ED) : Prop where
  size : s.pool.size = 0
  block_count : s.pool.block_count = 0
  start : s.pool.start = none
  block_size : 1 ≤ s.pool.block_size
  heap : ∀ b, s.heap.block b = none

/-! ## Well-formed pools -/

/-- The pool consists of the blocks of `l`. -/
structure WellFormed (s : State W PD BD ED) (l : List BlockPtr) : Prop where
  /-- Following `next` from `start` visits the blocks of `l`, and the `prev` of each is its
  predecessor, null for the first. -/
  links : Seg s.heap.nx s.heap.pv none s.pool.start l none
  distinct : l.Nodup
  exist : ∀ b ∈ l, ∃ blk, s.heap.block b = some blk
  block_count : s.pool.block_count = l.length
  last : ∀ b, l.getLast? = some b → s.pool.end = some b
  start : s.pool.start = none ↔ s.pool.block_count = 0
  /-- The count of each block is the number of its used elements, and there is one. -/
  element_count : ∀ b ∈ l, ∀ blk, s.heap.block b = some blk →
    blk.element_count = usedCount s.pool.block_size blk.start ∧ 1 ≤ blk.element_count
  size_eq : s.pool.size = (l.map s.heap.count).sum
  size_le : s.pool.size ≤ s.pool.max

/-- The run has done nothing undefined, and its pool is well formed. -/
def Config.WellFormed : Config W PD BD ED → Prop
  | .running s _ => ∃ l, PA.WellFormed s l
  | .stopped _ => False

/-- The call does not empty the first block while another one follows. -/
def Call.KeepsHead : Config W PD BD ED → Call → Prop
  | .running s _, .free e => ¬ (s.pool.start = some e.block ∧ ∃ blk n,
      s.heap.block e.block = some blk ∧ blk.element_count = 1 ∧ blk.next = some n)
  | _, _ => True

/-! ## The invariant -/

/-- Every block has a used element. -/
def NoIdle (s : State W PD BD ED) (l : List BlockPtr) : Prop :=
  ∀ b ∈ l, ∃ i, UsedAt s l ⟨b, i⟩

/-- The invariant of the runs that keep the head: the pool is well formed, and the elements that
the user holds are different ones, and used. -/
def Inv : Config W PD BD ED → Prop
  | .running s live => ∃ l, Rep s none l ∧ NoIdle s l ∧ 0 < s.pool.block_size ∧ live.Nodup ∧
      ∀ e ∈ live, UsedAt s l e
  | .stopped _ => False

variable {s s' : State W PD BD ED} {pre pre' : Option BlockPtr} {l l' : List BlockPtr}
  {live : List ElementPtr} {e : ElementPtr}

/-- A represented pool without idle blocks is well formed. -/
theorem Rep.wellFormed (h : Rep s none l) (hidle : NoIdle s l) : WellFormed s l where
  links := h.seg
  distinct := h.nodup
  exist := h.exist
  block_count := h.block_count
  last := h.last
  start := by
    rw [h.start_eq, h.block_count]
    cases l <;> simp
  element_count b hb blk hblk :=
    ⟨(h.blockOk hb hblk).count_eq, (h.count_pos_iff hb hblk).mpr (hidle b hb)⟩
  size_eq := h.size_eq
  size_le := h.size_le

/-- The invariant says so of every pool that is running. -/
theorem Inv.wellFormed {c : Config W PD BD ED} (h : Inv c) : c.WellFormed := by
  cases c with
  | running s live =>
    obtain ⟨l, hrep, hidle, -⟩ := h
    exact ⟨l, hrep.wellFormed hidle⟩
  | stopped u => exact h

/-- An empty pool is well formed. -/
theorem Empty.rep (h : Empty s) : Rep s none [] where
  seg := h.start
  last b hb := by cases hb
  block_count := h.block_count
  exist b hb := absurd hb List.not_mem_nil
  unborn b _ := h.heap b
  pre_nil _ := rfl
  ok b hb := absurd hb List.not_mem_nil
  size_eq := h.size
  size_le := by rw [h.size]; exact Nat.zero_le _
  stale q hq := by cases hq

/-- An empty pool meets the invariant. -/
theorem Empty.inv (h : Empty s) : Inv (.running s []) :=
  ⟨[], h.rep, fun _ hb => absurd hb List.not_mem_nil, h.block_size, List.nodup_nil,
    fun _ he => absurd he List.not_mem_nil⟩

/-- After an allocation every block still has a used element. -/
theorem Taken.noIdle (h : Taken k s s' pre l l' e) (hidle : NoIdle s l) : NoIdle s' l' := by
  have hold : ∀ b ∈ l, ∃ i, UsedAt s' l' ⟨b, i⟩ := fun b hb =>
    (hidle b hb).imp fun i hi => (h.used _).mpr (.inl hi)
  rcases h.blocks with ⟨rfl, -⟩ | ⟨hl', hblock, -⟩
  · exact hold
  · intro b hb
    rw [hl', List.mem_append, List.mem_singleton] at hb
    rcases hb with hb | rfl
    · exact hold b hb
    · -- The new block is the one whose element was taken.
      refine ⟨e.index, (h.used _).mpr (.inr ?_)⟩
      rw [← hblock]

/-- After an element was given back every block still has a used element. -/
theorem Given.noIdle (h : Given s s' l l' e) (hidle : NoIdle s l) : NoIdle s' l' := by
  intro b hb
  rcases h.kept b hb with hne | hi
  · obtain ⟨i, hi⟩ := hidle b (h.sub hb)
    exact ⟨i, (h.used _).mpr ⟨hi, fun he => hne (by rw [← he])⟩⟩
  · exact hi

/-! ## One call -/

/-- An allocation keeps the invariant. -/
theorem Inv.alloc (h : Inv (.running s live)) :
    Inv ((Config.running s live).next k .alloc) := by
  obtain ⟨l, hrep, hidle, hbs, hnodup, hlive⟩ := h
  show Inv (.afterAlloc live (allocPage k s))
  rcases allocPage_spec k hrep hbs with ⟨-, hres⟩ | ⟨-, e, s', l', hres, ht⟩ |
    ⟨-, m, s', hres, hrep', hpool, hheap, -⟩
  · rw [hres]
    exact ⟨l, hrep, hidle, hbs, hnodup, hlive⟩
  · rw [hres]
    refine ⟨l', ht.rep, ht.noIdle hidle, by rw [ht.block_size]; exact hbs, ?_, ?_⟩
    · exact List.nodup_cons.mpr ⟨fun he => ht.unused (hlive e he), hnodup⟩
    · intro e' he'
      rw [List.mem_cons] at he'
      exact (ht.used e').mpr (he'.symm.imp (hlive e') id)
  · rw [hres]
    have hused : ∀ e', UsedAt s l e' → UsedAt s' l e' := fun e' he' => by
      obtain ⟨hmem, hi, blk, hblk, hu⟩ := he'
      exact ⟨hmem, by rw [hpool]; exact hi, blk,
        by rw [hheap _ (hrep.lt_fresh hmem)]; exact hblk, hu⟩
    exact ⟨l, hrep', fun b hb => (hidle b hb).imp fun i => hused _, by rw [hpool]; exact hbs,
      hnodup, fun e' he' => hused e' (hlive e' he')⟩

/-- Where a block stands in the list that starts with it. -/
theorem Rep.head_eq {l₁ l₂ : List BlockPtr} {b : BlockPtr} (h : Rep s pre (l₁ ++ b :: l₂)) :
    s.pool.start = some b ↔ l₁ = [] := by
  rw [h.start_eq]
  cases l₁ with
  | nil => simp
  | cons c l₁ =>
    have hnodup := h.nodup
    rw [List.cons_append, List.nodup_cons] at hnodup
    have hcb : c ≠ b := fun he => hnodup.1 (by simp [he])
    simp [hcb]

/-- The block after a block of the list. -/
theorem Rep.next_eq {l₁ l₂ : List BlockPtr} {b : BlockPtr} {blk : Block BD ED}
    (h : Rep s pre (l₁ ++ b :: l₂)) (hblk : s.heap.block b = some blk) : blk.next = l₂.head? := by
  obtain ⟨mid, -, hseg⟩ := seg_append.mp h.seg
  rw [← Heap.nx_of_block hblk]
  exact hseg.2.2.head

/-- A call that does not keep the head empties the first block while another one follows. -/
theorem keepsHead_free_iff {l₁ l₂ : List BlockPtr} {blk : Block BD ED}
    (h : Rep s pre (l₁ ++ e.block :: l₂)) (hblk : s.heap.block e.block = some blk)
    (hcount : blk.element_count = 1) :
    (Call.free e).KeepsHead (.running s live) ↔ (l₁ = [] → l₂ = []) := by
  unfold Call.KeepsHead
  simp only [h.head_eq, hblk, h.next_eq hblk, Option.some.injEq, exists_and_left, exists_eq_left',
    hcount, true_and, not_and, not_exists]
  cases l₂ <;> simp

/-- Freeing an element gives it back and leaves a well-formed pool, if it keeps the head. -/
theorem next_free (k : Kind W PD BD ED) (h : Rep s none l) (he : UsedAt s l e)
    (hhead : (Call.free e).KeepsHead (.running s live)) :
    ∃ s' l', (Config.running s live).next k (.free e) = .running s' (live.erase e) ∧
      Rep s' none l' ∧ Given s s' l l' e := by
  obtain ⟨blk, hblk⟩ := h.exist e.block he.1
  have hout := freePage_cases (k := k) h he hblk
  -- The first block goes only if it is the only one, so nothing points back to it.
  have hnone : ∀ l₁ l₂ : List BlockPtr, (l₁ = [] → l₂ = []) → headPrev none e.block l₁ l₂ = none :=
    fun l₁ l₂ hk => by
      unfold headPrev
      split_ifs with h₁ h₂
      · rfl
      · exact absurd (hk h₁) h₂
      · rfl
  show ∃ s' l', Config.afterFree live e (freePage k e s) = _ ∧ _
  revert hout
  generalize freePage k e s = res
  intro hout
  -- The block stays, or it is taken off the list, and its content may not be released.
  cases hout with
  | keep hcount =>
    obtain ⟨hg, hrep⟩ := given_keep h he hblk hcount
    exact ⟨_, l, rfl, hrep, hg⟩
  | stale hcount q l₂ s₁ hpre hl => cases hpre
  | drop hcount l₁ l₂ s₁ p hl hpre hp hrel hgone hdrop hrep =>
    subst hl
    rw [hnone l₁ l₂ ((keepsHead_free_iff h hblk hcount).mp hhead)] at hrep
    exact ⟨s₁, _, rfl, hrep, given_drop h he hblk hcount hdrop⟩
  | throws hcount l₁ l₂ s₁ m p w hl hpre hp hrel hdrop hrep =>
    subst hl
    have hk := (keepsHead_free_iff h hblk hcount).mp hhead
    have hrep' := hrep hk
    rw [hnone l₁ l₂ hk] at hrep'
    exact ⟨s₁, _, rfl, hrep', given_drop h he hblk hcount hdrop⟩

/-- Freeing an element keeps the invariant, if it keeps the head. -/
theorem Inv.free (h : Inv (.running s live)) (he : e ∈ live)
    (hhead : (Call.free e).KeepsHead (.running s live)) :
    Inv ((Config.running s live).next k (.free e)) := by
  obtain ⟨l, hrep, hidle, hbs, hnodup, hlive⟩ := h
  obtain ⟨s', l', hnext, hrep', hg⟩ := next_free k hrep (hlive e he) hhead
  rw [hnext]
  refine ⟨l', hrep', hg.noIdle hidle, by rw [hg.block_size]; exact hbs, hnodup.erase e, ?_⟩
  intro e' he'
  rw [hnodup.mem_erase_iff] at he'
  exact (hg.used e').mpr ⟨hlive e' he'.2, he'.1⟩

/-- In a well-formed pool the first block points back to nothing. -/
theorem not_wellFormed_of_head {b c : BlockPtr} {l₂ : List BlockPtr}
    (h : Linked s (some b) (c :: l₂)) : ¬ ∃ l, WellFormed s l := by
  rintro ⟨l, hwf⟩
  obtain ⟨hc, hpv, -⟩ := h.seg
  have hlinks := hwf.links
  cases l with
  | nil =>
    rw [hc] at hlinks
    cases hlinks
  | cons d l =>
    obtain ⟨hd, hpv', -⟩ := hlinks
    obtain rfl : c = d := Option.some.inj (hc.symm.trans hd)
    rw [hpv] at hpv'
    cases hpv'

/-- Emptying the first block while another one follows destroys the well-formedness. -/
theorem Inv.not_wellFormed (h : Inv (.running s live)) (he : e ∈ live)
    (hhead : ¬ (Call.free e).KeepsHead (.running s live)) :
    ¬ ((Config.running s live).next k (.free e)).WellFormed := by
  obtain ⟨l, hrep, -, -, -, hlive⟩ := h
  have hused := hlive e he
  obtain ⟨blk, hblk⟩ := hrep.exist e.block hused.1
  have hout := freePage_cases (k := k) hrep hused hblk
  -- What is left is linked, with the new first block pointing back to the old one.
  have hleft : ∀ {l₁ l₂ : List BlockPtr} {s₁ : State W PD BD ED}, blk.element_count = 1 →
      l = l₁ ++ e.block :: l₂ → Dropped (s.give e blk) s₁ none e.block l₁ l₂ →
      ¬ ∃ l, WellFormed s₁ l := fun {l₁ l₂ s₁} hcount hl hdrop => by
    subst hl
    rw [keepsHead_free_iff hrep hblk hcount, Classical.not_imp] at hhead
    obtain ⟨rfl, hne⟩ := hhead
    have hlinked := hdrop.linked
    unfold headPrev at hlinked
    rw [if_pos rfl, if_neg hne] at hlinked
    cases l₂ with
    | nil => exact absurd rfl hne
    | cons c l₂ => exact not_wellFormed_of_head hlinked
  show ¬ (Config.afterFree live e (freePage k e s)).WellFormed
  revert hout
  generalize freePage k e s = res
  intro hout
  cases hout with
  | keep hcount =>
    refine absurd (fun ⟨_, blk', n, hblk', hcount', _⟩ => hcount ?_) hhead
    rw [hblk] at hblk'
    cases hblk'
    exact hcount'
  | stale hcount q l₂ s₁ hpre hl => cases hpre
  | drop hcount l₁ l₂ s₁ p hl hpre hp hrel hgone hdrop hrep' => exact hleft hcount hl hdrop
  | throws hcount l₁ l₂ s₁ m p w hl hpre hp hrel hdrop hrep' => exact hleft hcount hl hdrop

/-! ## Whole runs -/

/-- The pool is well formed throughout a run, which then does nothing undefined, exactly when no
call of the run empties the first block while another one follows. -/
theorem wellFormed_iff_keepsHead (k : Kind W PD BD ED) {s : State W PD BD ED} (h : Empty s)
    {calls : List (Config W PD BD ED × Call)} {c : Config W PD BD ED}
    (hrun : Run (Step k) (.running s []) calls c) :
    Throughout Config.WellFormed calls c ↔ AllSteps (fun c call => call.KeepsHead c) calls := by
  refine Run.all_iff h.inv (fun _ hI => hI.wellFormed) ?_ ?_ hrun
  · rintro c call c' hI ⟨hallowed, rfl⟩ hhead
    cases c with
    | running s live =>
      cases call with
      | alloc => exact hI.alloc
      | free e => exact hI.free hallowed hhead
    | stopped u => exact hI
  · rintro c call c' hI ⟨hallowed, rfl⟩ hhead
    cases c with
    | running s live =>
      cases call with
      | alloc => exact absurd trivial hhead
      | free e => exact hI.not_wellFormed hallowed hhead
    | stopped u => exact absurd trivial hhead

/-! ## A run that loses the head -/

/-- An empty pool of UAR pages, with one page in each block. -/
def onePagePool : State Unit UAR.PD Unit UAR.Uar where
  world := ()
  pool := {
    max := 2, size := 0, block_size := 1, block_count := 0, data := ⟨⟨0, 0⟩⟩, start := none,
    «end» := none }
  heap := {
    block := fun _ => none, fresh := 0,
    uninit := fun _ => ⟨0, none, none, (), fun _ => ⟨false, ⟨0, 0⟩, 0⟩⟩ }

/-- This pool is empty. -/
theorem onePagePool_empty : Empty onePagePool := ⟨rfl, rfl, rfl, Nat.le_refl 1, fun _ => rfl⟩

/-- Two pages allocated, and freed in the same order. -/
def freeInOrder : List Call := [.alloc, .alloc, .free ⟨0, 0⟩, .free ⟨1, 0⟩]

/-- Where these calls lead. -/
def afterFreeInOrder : Config Unit UAR.PD Unit UAR.Uar :=
  freeInOrder.foldl (Config.next (UAR.kind Unit)) (.running onePagePool [])

/-- These calls with the states they are made in. -/
def freeInOrderSteps : List (Config Unit UAR.PD Unit UAR.Uar × Call) :=
  trace (Config.next (UAR.kind Unit)) (.running onePagePool []) freeInOrder

/-- These calls are a run. -/
theorem freeInOrder_run :
    Run (Step (UAR.kind Unit)) (.running onePagePool []) freeInOrderSteps afterFreeInOrder := by
  have hallowed : ∀ p ∈ freeInOrderSteps, p.2.Allowed p.1 := by decide +kernel
  exact run_trace fun p hp => ⟨hallowed p hp, rfl⟩

/-- The second call of `freePage` writes to the block that the first one destroyed. -/
theorem freeInOrder_not_wellFormed :
    freeInOrderSteps.map Prod.snd = freeInOrder ∧
      Run (Step (UAR.kind Unit)) (.running onePagePool []) freeInOrderSteps afterFreeInOrder ∧
      afterFreeInOrder = .stopped (.undefined .use_after_free) ∧
      ¬ Throughout Config.WellFormed freeInOrderSteps afterFreeInOrder := by
  have hlast : afterFreeInOrder = .stopped (.undefined .use_after_free) := rfl
  refine ⟨trace_events _ _ _, freeInOrder_run, hlast, not_throughout ?_⟩
  rw [hlast]
  exact id

/-- The run is not well formed throughout, since one of its calls does not keep the head. -/
theorem freeInOrder_iff :
    Throughout Config.WellFormed freeInOrderSteps afterFreeInOrder ↔
      AllSteps (fun c call => call.KeepsHead c) freeInOrderSteps :=
  wellFormed_iff_keepsHead (UAR.kind Unit) onePagePool_empty freeInOrder_run

end L4Rdma.PA
